import Compliance.Proofs.Token.Extended

/-!
# Counting braces

The depth of a cursor is right at every moment: wherever a parser stops, at a value or
at a fault, it is the depth where the parser began, and one more for each block that the
tokens in between have opened and not closed.  A parser that has a value has closed all
that it opened, and none has ever closed a block that it did not open.

## Main definitions

* `climb height ts` — how many blocks are open behind some tokens, unless these close too many.
* `Cursor.Climbs c d n` — from `c` to `d` there are `n` more blocks open, in truth and in count.
* `Parser.Level P` — where `P` has a value no block is open that was not before, and where it
  stops at a fault the count is right.
-/

namespace Compliance

/-! ## Heights -/

/-- The number of open blocks behind a token.  A brace that closes nothing, or the end of a text,
has nothing behind it. -/
def Token.step (height : Nat) : Token → Option Nat
  | .braceOpen => some (height + 1)
  | .braceClose => if height = 0 then none else some (height - 1)
  | .eof => none
  | _ => some height

/-- The number of open blocks behind some tokens. -/
def climb (height : Nat) (ts : List Token) : Option Nat := ts.foldlM Token.step height

/-- A token between the braces. -/
def Token.Plain (t : Token) : Prop := ∀ height, t.step height = some height

variable {t : Token} {ts us : List Token} {h h' k : Nat}

@[simp] theorem climb_nil : climb h [] = some h := rfl

theorem climb_cons : climb h (t :: ts) = (t.step h).bind (climb · ts) := by
  rw [climb, List.foldlM_cons]
  rfl

theorem climb_append : climb h (ts ++ us) = (climb h ts).bind (climb · us) := by
  rw [climb, List.foldlM_append]
  rfl

theorem step_add (step : t.step h = some h') : t.step (h + k) = some (h' + k) := by
  cases t with
  | braceOpen =>
    obtain rfl := Option.some.inj step
    simp [Token.step, Nat.add_right_comm]
  | braceClose =>
    simp only [Token.step] at step ⊢
    split at step
    · cases step
    · obtain rfl := Option.some.inj step
      rw [if_neg (by omega)]
      exact congrArg some (by omega)
  | eof => cases step
  | _ =>
    obtain rfl := Option.some.inj step
    rfl

/-- Blocks that are open around some tokens stay open. -/
theorem climb_add (climbs : climb h ts = some h') : climb (h + k) ts = some (h' + k) := by
  induction ts generalizing h with
  | nil =>
    obtain rfl := Option.some.inj climbs
    rfl
  | cons t ts ih =>
    rw [climb_cons] at climbs ⊢
    cases step : t.step h with
    | none => simp [step] at climbs
    | some height =>
      rw [step] at climbs
      rw [step_add step]
      exact ih climbs

/-! ## Cursors -/

namespace Cursor

variable {c d e : Cursor} {m n : Nat}

/-- Between two cursors some more blocks are open, and the second one counts them. -/
def Climbs (c d : Cursor) (n : Nat) : Prop :=
  ∃ consumed, c.placed = consumed ++ d.placed ∧
    climb 0 (consumed.map Placed.token) = some n ∧ d.depth = c.depth + n

namespace Climbs

theorem refl (c : Cursor) : c.Climbs c 0 := ⟨[], rfl, rfl, rfl⟩

theorem trans (first : c.Climbs d m) (second : d.Climbs e n) : c.Climbs e (m + n) := by
  obtain ⟨us, split, height, depth⟩ := first
  obtain ⟨vs, split', height', depth'⟩ := second
  refine ⟨us ++ vs, by rw [split, split', List.append_assoc], ?_, by omega⟩
  have shifted := climb_add (k := m) height'
  rw [Nat.zero_add] at shifted
  rw [List.map_append, climb_append, height, Option.bind_some, shifted, Nat.add_comm]

theorem suffix (climbs : c.Climbs d n) : d.placed <:+ c.placed := by
  obtain ⟨us, split, -⟩ := climbs
  exact ⟨us, split.symm⟩

theorem scanned (climbs : c.Climbs d n) (hc : c.Scanned) : d.Scanned := hc.of_suffix climbs.suffix

theorem depth (climbs : c.Climbs d n) : d.depth = c.depth + n := by
  obtain ⟨-, -, -, depth⟩ := climbs
  exact depth

end Climbs

theorem climbs_advance {depth : Nat} (more : c.ahead ≠ []) (step : c.token.step 0 = some n)
    (count : depth = c.depth + n) : c.Climbs { c.advance with depth } n := by
  obtain ⟨next, rest, ahead⟩ := List.exists_cons_of_ne_nil more
  refine ⟨[c.current], ?_, ?_, count⟩
  · simp [placed, advance, ahead]
  · have current : c.current.token = c.token := rfl
    rw [List.map_singleton, climb_cons, current, step]
    rfl

/-- Behind an opening brace. -/
def inside (c : Cursor) : Cursor := { c.advance with depth := c.depth + 1 }

theorem climbs_inside (hc : c.Scanned) (opens : c.token = .braceOpen) : c.Climbs c.inside 1 :=
  climbs_advance (hc.ahead_ne_nil (by simp [opens])) (by rw [opens]; rfl) rfl

/-- A closing brace closes one of the open blocks. -/
theorem Climbs.close (climbs : c.Climbs d (n + 1)) (hc : c.Scanned)
    (closes : d.token = .braceClose) :
    c.Climbs { d.advance with depth := d.depth - 1 } n := by
  have more := (climbs.scanned hc).ahead_ne_nil (by simp [closes])
  obtain ⟨us, split, height, depth⟩ := climbs
  obtain ⟨next, rest, ahead⟩ := List.exists_cons_of_ne_nil more
  have current : d.current.token = .braceClose := closes
  refine ⟨us ++ [d.current], ?_, ?_, ?_⟩
  · rw [split, placed, placed, advance, ahead]
    simp
  · rw [List.map_append, climb_append, height, List.map_singleton, current]
    rfl
  · simp only [depth]
    omega

theorem climbs_advance_plain (hc : c.Scanned) (plain : c.token.Plain) : c.Climbs c.advance 0 := by
  have more : c.ahead ≠ [] := hc.ahead_ne_nil fun eof => by
    have stops := plain 0
    rw [eof] at stops
    cases stops
  have step : c.Climbs { c.advance with depth := c.depth } 0 :=
    climbs_advance more (plain 0) rfl
  rwa [← depth_advance c] at step

end Cursor

/-! ## Parsers -/

namespace Parser

variable {α β : Type} {c : Cursor} {P : Parser α} {k : α → Parser β}

/-- From a cursor on a parser closes all that it opens, or stops at a fault where the count is
right. -/
structure Stays (P : Parser α) (c : Cursor) : Prop where
  ok : ∀ {a : α} {d : Cursor}, P c = .ok a d → c.Climbs d 0
  error : ∀ {fault : SyntaxFault} {d : Cursor}, P c = .error fault d → ∃ n, c.Climbs d n

/-- The same from any cursor among the tokens of a text. -/
def Level (P : Parser α) : Prop := ∀ ⦃c : Cursor⦄, c.Scanned → P.Stays c

namespace Stays

theorem pure (a : α) : (Pure.pure a : Parser α).Stays c where
  ok result := by
    cases result
    exact .refl _
  error result := by cases result

theorem throw (fault : SyntaxFault) : (MonadExcept.throw fault : Parser α).Stays c where
  ok result := by cases result
  error result := by
    cases result
    exact ⟨0, .refl _⟩

theorem unexpected (phrase : String) : (Parser.unexpected phrase : Parser α).Stays c where
  ok result := (unexpected_ne_ok phrase _ result).elim
  error result := by
    cases result
    exact ⟨0, .refl _⟩

theorem refuse (cause : SyntaxCause) : (Parser.refuse cause : Parser α).Stays c where
  ok result := (refuse_ne_ok cause _ result).elim
  error result := by
    cases result
    exact ⟨0, .refl _⟩

theorem bind (h : P.Stays c) (hk : ∀ a d, P c = .ok a d → (k a).Stays d) :
    (P >>= k).Stays c where
  ok result := by
    obtain ⟨a, d, first, second⟩ := bind_eq_ok.mp result
    exact (h.ok first).trans ((hk a d first).ok second)
  error result := by
    cases first : P c with
    | error fault d =>
      rw [bind_error first] at result
      cases result
      exact h.error first
    | ok a d =>
      rw [bind_ok first] at result
      obtain ⟨n, climbs⟩ := (hk a d first).error result
      exact ⟨0 + n, (h.ok first).trans climbs⟩

theorem of_eq {Q : Parser α} (same : P c = Q c) (h : Q.Stays c) : P.Stays c where
  ok result := h.ok (same ▸ result)
  error result := h.error (same ▸ result)

theorem token_bind {k : Token → Parser β} (h : (k c.token).Stays c) : (token >>= k).Stays c :=
  of_eq (Q := k c.token) rfl h

theorem get_bind {k : Cursor → Parser β} (h : (k c).Stays c) : (get >>= k : Parser β).Stays c :=
  of_eq (Q := k c) rfl h

theorem position_bind {k : Position → Parser β} (h : (k c.current.position).Stays c) :
    (position >>= k).Stays c :=
  of_eq (Q := k c.current.position) rfl h

theorem advance_bind {k : Unit → Parser β} {t : Token} (hc : c.Scanned) (current : c.token = t)
    (plain : t.Plain) (h : (k ()).Stays c.advance) : (advance >>= k).Stays c := by
  have step : (advance : Parser Unit).Stays c := {
    ok := fun result => by
      cases result
      exact Cursor.climbs_advance_plain hc (current ▸ plain)
    error := fun result => by cases result }
  refine step.bind fun _ d result => ?_
  cases result
  exact h

theorem expect (hc : c.Scanned) {t : Token} (plain : t.Plain) : (Parser.expect t).Stays c := by
  refine token_bind ?_
  split
  · next same =>
    have step : (advance >>= Pure.pure : Parser Unit).Stays c :=
      advance_bind hc same plain (pure ())
    rwa [bind_pure] at step
  · exact unexpected _

end Stays

/-! ## Sequences and repetitions -/

theorem Level.pure (a : α) : Level (Pure.pure a : Parser α) := fun _ _ => .pure a

theorem Level.bind (h : Level P) (hk : ∀ a, Level (k a)) : Level (P >>= k) := fun _ hc =>
  (h hc).bind fun a _ result => hk a (((h hc).ok result).scanned hc)

theorem Level.expect {t : Token} (plain : t.Plain) : Level (expect t) :=
  fun _ hc => .expect hc plain

theorem level_token : Level token := fun _ _ => {
  ok := fun result => by
    cases result
    exact .refl _
  error := fun result => by cases result }

theorem Level.position : Level position := fun _ _ => {
  ok := fun result => by
    cases result
    exact .refl _
  error := fun result => by cases result }

/-- A repetition of what is level wherever a test allows it. -/
theorem Level.foldWhile {goOn : Cursor → Bool} {step : β → Parser β}
    (h : ∀ {c : Cursor} (b : β), c.Scanned → goOn c = true → (step b).Stays c) (b : β) :
    Level (foldWhile goOn step b) := by
  intro c hc
  induction b, c using foldWhile_induction goOn step with
  | finish b c ends => exact .of_eq (Q := Pure.pure b) (foldWhile_end ends) (.pure b)
  | more b c next d continues first less ih =>
    have taken := h b hc continues
    refine .of_eq (Q := step b >>= Parser.foldWhile goOn step) ?_
      (taken.bind fun next' d' result => ?_)
    · rw [foldWhile_cons continues first less, bind_ok first]
    · obtain ⟨rfl, rfl⟩ : next' = next ∧ d' = d := by simpa [first, eq_comm] using result
      exact ih ((taken.ok first).scanned hc)
  | last b c next d continues first less =>
    exact .of_eq (Q := step b) ((foldWhile_last continues first less).trans first.symm)
      (h b hc continues)
  | stop b c fault d continues first =>
    exact .of_eq (Q := step b) ((foldWhile_stop continues first).trans first.symm)
      (h b hc continues)

theorem Level.repeatWhile {goOn : Cursor → Bool} {item : Parser α}
    (h : ∀ {c : Cursor}, c.Scanned → goOn c = true → item.Stays c) :
    Level (repeatWhile goOn item) :=
  Level.bind (Level.foldWhile (fun _ hc continues => (h hc continues).bind fun _ _ _ => .pure _) [])
    fun _ => .pure _

/-! ## Blocks -/

theorem expect_stops {t : Token} {fault : SyntaxFault} {d : Cursor}
    (result : expect t c = .error fault d) : d = c := by
  rw [Parser.expect, Parser.token_bind] at result
  split at result <;> cases result
  rfl

/-- An expected token that only changes the count when it is taken has no other fault. -/
theorem expect_modify_stops {t : Token} {f : Cursor → Cursor} {fault : SyntaxFault} {d : Cursor}
    (result : (do expect t; modify f : Parser Unit) c = .error fault d) : d = c := by
  cases taken : expect t c with
  | ok a e =>
    rw [bind_ok taken] at result
    cases result
  | error fault e =>
    rw [bind_error taken] at result
    cases result
    exact expect_stops taken

theorem openBlock_stops {fault : SyntaxFault} {d : Cursor}
    (result : openBlock c = .error fault d) : d = c := expect_modify_stops result

theorem closeBlock_stops {fault : SyntaxFault} {d : Cursor}
    (result : closeBlock c = .error fault d) : d = c := expect_modify_stops result

/-- A block that is not read to its end stops at its opening brace, or behind that within it. -/
theorem braced_stops (h : Level P) {i : α → β} (hc : c.Scanned) {fault : SyntaxFault} {d : Cursor}
    (result : braced i P c = .error fault d) :
    d = c ∨ c.token = .braceOpen ∧ ∃ n, c.inside.Climbs d n := by
  rw [braced, within_cursor, within_cursor] at result
  cases opened : openBlock c with
  | error fault' e =>
    rw [bind_error opened] at result
    cases result
    exact .inl (openBlock_stops opened)
  | ok u e =>
    obtain ⟨opens, behind⟩ := openBlock_eq_ok.mp opened
    obtain rfl : e = c.inside := behind
    refine .inr ⟨opens, ?_⟩
    rw [bind_ok opened] at result
    have inside : P.Stays c.inside := h (hc.advance.withDepth _)
    cases read : P c.inside with
    | error fault' e =>
      rw [bind_error read] at result
      cases result
      exact inside.error read
    | ok a e =>
      rw [bind_ok read] at result
      cases closed : closeBlock e with
      | ok u' e' =>
        rw [bind_ok closed] at result
        cases result
      | error fault' e' =>
        rw [bind_error closed] at result
        cases result
        obtain rfl := closeBlock_stops closed
        exact ⟨0, inside.ok read⟩

/-- **What is level is level in braces.** -/
theorem Level.braced (h : Level P) {i : α → β} : Level (braced i P) := fun c hc => {
  ok := fun result => by
    obtain ⟨opens, a, d, read, closes, rfl, rfl⟩ := braced_eq_ok.mp result
    have inside : c.inside.Climbs d 0 := (h (hc.advance.withDepth _)).ok read
    exact ((Cursor.climbs_inside hc opens).trans inside).close hc closes
  error := fun result => by
    rcases braced_stops h hc result with rfl | ⟨opens, n, climbs⟩
    · exact ⟨0, .refl _⟩
    · exact ⟨1 + n, (Cursor.climbs_inside hc opens).trans climbs⟩ }

/-! ## Names -/

theorem Level.string : Level string := fun c hc => by
  refine .token_bind ?_
  split
  · next current => exact .advance_bind hc current (fun _ => rfl) (.pure _)
  · exact .unexpected _

theorem Level.nameOf (phrase : String) : Level (nameOf phrase) := fun c hc => by
  refine .token_bind ?_
  have behind (name : String) (plain : c.token.Plain) : (do
      if name.isEmpty then refuse (.emptyName phrase)
      advance
      return name : Parser String).Stays c := by
    split
    · exact (Stays.refuse (α := Unit) _).bind fun _ _ result => (refuse_ne_ok _ _ result).elim
    · exact .advance_bind hc rfl plain (.pure _)
  split
  · next current => exact behind _ (current ▸ fun _ => rfl)
  · next current => exact behind _ (current ▸ fun _ => rfl)
  · exact (Stays.unexpected _).bind fun _ _ result => (unexpected_ne_ok _ _ result).elim

/-- A colon and the word behind it, where there is a colon. -/
theorem Stays.segment (phrase : String) (hc : c.Scanned) (current : c.token = .colon) :
    (segment phrase).Stays c := by
  refine .advance_bind hc current (fun _ => rfl) (.token_bind ?_)
  split
  · next word => exact .advance_bind hc.advance word (fun _ => rfl) (.pure _)
  · exact .unexpected _

theorem Level.reference (phrase : String) : Level (reference phrase) := fun c hc => by
  refine .token_bind ?_
  split
  · next current => exact .advance_bind hc current (fun _ => rfl) (.pure _)
  · next current =>
    refine .advance_bind hc current (fun _ => rfl) ?_
    have colons : Level (Parser.repeatWhile (fun c => c.token = .colon) (Parser.segment phrase)) :=
      .repeatWhile fun hc continues => .segment phrase hc (of_decide_eq_true continues)
    exact (colons.bind fun _ => .pure _) hc.advance
  · exact .unexpected _

end Parser

end Compliance
