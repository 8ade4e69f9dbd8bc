import Compliance.Proofs.Token.Extended
import Compliance.Proofs.Token.Inserted

/-!
# Moving forward

A parser moves its cursor forward only, whether it has a value or stops at a fault, and
a fault is one of the tokens it has passed or of the one it stands on.  Parts in sequence
and repetitions hand this on, so it needs no more than a look at what the small parsers
do.  The tokens of a text stand one behind the other, so faults that are met on a way
forward have their places in order.

## Main definitions

* `Cursor.Trail c faults d` — a way forward on which faults are met in order.
* `Parser.Forward P` — a parser that moves forward.
* `Cursor.Trail.ordered` — the places of the faults on a trail do not decrease.
-/

namespace Compliance

/-! ## Trails -/

/-- A place is not behind another. -/
def Position.AtMost (p q : Position) : Prop := p = q ∨ p.Before q

namespace Cursor

variable {c d e : Cursor} {fault : SyntaxFault} {faults more : List SyntaxFault}

/-- From one cursor to another there is a way forward that comes past the tokens of some faults,
one fault after the other. -/
def Trail (c : Cursor) : List SyntaxFault → Cursor → Prop
  | [], d => d.placed <:+ c.placed
  | fault :: faults, d =>
    ∃ e : Cursor, e.placed <:+ c.placed ∧ e.current.position = fault.position ∧ e.Trail faults d

namespace Trail

theorem refl (c : Cursor) : c.Trail [] c := List.suffix_rfl

/-- A fault of the current token, from which the way goes on. -/
theorem here (h : c.Trail faults d) (cause : SyntaxCause) :
    c.Trail (⟨c.current.position, cause⟩ :: faults) d :=
  ⟨c, List.suffix_rfl, rfl, h⟩

theorem of_suffix (suffix : d.placed <:+ c.placed) (h : d.Trail faults e) : c.Trail faults e := by
  cases faults with
  | nil => exact List.IsSuffix.trans h suffix
  | cons fault faults =>
    obtain ⟨d', further, met, behind⟩ := h
    exact ⟨d', further.trans suffix, met, behind⟩

theorem trans (h : c.Trail faults d) (h' : d.Trail more e) : c.Trail (faults ++ more) e := by
  induction faults generalizing c with
  | nil => exact h'.of_suffix h
  | cons fault faults ih =>
    obtain ⟨c', further, met, behind⟩ := h
    exact ⟨c', further, met, ih behind⟩

/-- A way with faults is one without. -/
theorem suffix (h : c.Trail faults d) : d.placed <:+ c.placed := by
  induction faults generalizing c with
  | nil => exact h
  | cons fault faults ih =>
    obtain ⟨c', further, -, behind⟩ := h
    exact (ih behind).trans further

/-- A way past some faults and then others is one past the first of them. -/
theorem of_append (h : c.Trail (faults ++ more) d) : c.Trail faults d := by
  induction faults generalizing c with
  | nil => exact suffix h
  | cons fault faults ih =>
    obtain ⟨c', further, met, behind⟩ := h
    exact ⟨c', further, met, ih behind⟩

theorem exists_token (h : c.Trail faults d) (hf : fault ∈ faults) :
    ∃ t ∈ c.placed, t.position = fault.position := by
  induction faults generalizing c with
  | nil => cases hf
  | cons first faults ih =>
    obtain ⟨c', further, met, behind⟩ := h
    rcases List.mem_cons.mp hf with rfl | hf
    · exact ⟨c'.current, further.subset List.mem_cons_self, met⟩
    · obtain ⟨t, ht, met'⟩ := ih behind hf
      exact ⟨t, further.subset ht, met'⟩

/-- **The faults on a way forward have their places in order**, if the tokens have. -/
theorem ordered (h : c.Trail faults d)
    (tokens : c.placed.Pairwise fun t u => t.position.Before u.position) :
    faults.Pairwise fun f g => f.position.AtMost g.position := by
  induction faults generalizing c with
  | nil => exact .nil
  | cons fault faults ih =>
    obtain ⟨c', further, met, behind⟩ := h
    have tokens' := tokens.sublist further.sublist
    refine .cons (fun g hg => ?_) (ih behind tokens')
    obtain ⟨t, ht, met'⟩ := behind.exists_token hg
    rw [← met, ← met']
    rcases List.mem_cons.mp ht with rfl | ht
    · exact .inl rfl
    · exact .inr (List.rel_of_pairwise_cons tokens' ht)

end Trail

end Cursor

/-! ## Parsers -/

namespace Parser

variable {α β : Type} {P : Parser α} {c d : Cursor}

/-- A parser moves forward, and its fault is met on the way. -/
structure Forward (P : Parser α) : Prop where
  ok : ∀ {c d : Cursor} {a : α}, P c = .ok a d → c.Trail [] d
  error : ∀ {c d : Cursor} {fault : SyntaxFault}, P c = .error fault d → c.Trail [fault] d

namespace Forward

theorem of_moves {value : Cursor → α} {move : Cursor → Cursor}
    (suffix : ∀ c, (move c).placed <:+ c.placed) :
    Forward (fun c => .ok (value c) (move c) : Parser α) where
  ok result := by
    cases result
    exact suffix _
  error result := by cases result

/-- What stops at a fault of the current token moves forward before it goes on. -/
theorem of_stops {cause : Cursor → SyntaxCause} {move : Cursor → Cursor}
    (suffix : ∀ c, (move c).placed <:+ c.placed) :
    Forward (fun c => .error ⟨c.current.position, cause c⟩ (move c) : Parser α) where
  ok result := by cases result
  error {c d fault} result := by
    have moved : c.Trail [] (move c) := suffix c
    cases result
    exact moved.here _

theorem pure (a : α) : Forward (Pure.pure a : Parser α) :=
  of_moves fun _ => List.suffix_rfl

theorem bind {k : α → Parser β} (h : Forward P) (hk : ∀ a, Forward (k a)) :
    Forward (P >>= k) where
  ok result := by
    obtain ⟨a, d, first, second⟩ := bind_eq_ok.mp result
    exact (h.ok first).trans ((hk a).ok second)
  error {c e fault} result := by
    cases first : P c with
    | ok a d =>
      rw [bind_ok first] at result
      exact (h.ok first).trans ((hk a).error result)
    | error fault d =>
      rw [bind_error first] at result
      cases result
      exact h.error first

end Forward

theorem forward_token : Forward token := .of_moves fun _ => List.suffix_rfl

theorem forward_position : Forward position := .of_moves fun _ => List.suffix_rfl

theorem forward_get : Forward (get : Parser Cursor) := .of_moves fun _ => List.suffix_rfl

theorem forward_advance : Forward advance := .of_moves fun _ => Cursor.advance_placed_suffix

theorem forward_refuse (cause : SyntaxCause) : Forward (refuse cause : Parser α) :=
  .of_stops fun _ => List.suffix_rfl

theorem forward_unexpected (phrase : String) : Forward (unexpected phrase : Parser α) :=
  .of_stops fun _ => List.suffix_rfl

/-! ## Repetitions -/

theorem forward_foldWhile {goOn : Cursor → Bool} {step : β → Parser β}
    (h : ∀ b, Forward (step b)) (b : β) : Forward (foldWhile goOn step b) := by
  have runs (c : Cursor) : (∀ b' d, foldWhile goOn step b c = .ok b' d → c.Trail [] d) ∧
      ∀ fault d, foldWhile goOn step b c = .error fault d → c.Trail [fault] d := by
    induction b, c using foldWhile_induction goOn step with
    | finish b c ends =>
      rw [foldWhile_end ends]
      exact ⟨fun b' d result => by cases result; exact .refl c,
        fun fault d result => by cases result⟩
    | more b c next d continues first less ih =>
      have moved := (h b).ok first
      rw [foldWhile_cons continues first less]
      exact ⟨fun b' e result => moved.trans (ih.1 b' e result),
        fun fault e result => moved.trans (ih.2 fault e result)⟩
    | last b c next d continues first less =>
      rw [foldWhile_last continues first less, ← first]
      exact ⟨fun _ _ => (h b).ok, fun _ _ => (h b).error⟩
    | stop b c fault d continues first =>
      rw [foldWhile_stop continues first, ← first]
      exact ⟨fun _ _ => (h b).ok, fun _ _ => (h b).error⟩
  exact ⟨fun result => (runs _).1 _ _ result, fun result => (runs _).2 _ _ result⟩

end Parser

end Compliance
