import Compliance.Statement.Parser

/-!
# Reading tokens wherever they stand

What is read depends on the tokens and not on where they stand.  Places are only handed
on: the line of a token into what is read from it, and its place into a fault.  So with
all tokens in other places the same is read, and whatever carries a place carries the
other one.

## Main definitions

* `Move` — other places, of which the lines depend on the lines alone.
* `Cursor.moved`, `SyntaxFault.moved`, `Progress.moved` — what has places, with the others.
* `Corresponds move g f P Q` — `Q` does with the other places what `P` does, up to these.
-/

namespace Compliance

/-- Other places for those of a text.  Places in one line go to places in one line. -/
structure Move where
  place : Position → Position
  line : Nat → Nat
  line_place : ∀ p, (place p).line = line p.line

variable {move : Move}

/-- A token elsewhere. -/
def Placed.moved (move : Move) (t : Placed) : Placed := ⟨t.token, move.place t.position⟩

/-- A fault elsewhere. -/
def SyntaxFault.moved (move : Move) (fault : SyntaxFault) : SyntaxFault :=
  ⟨move.place fault.position, fault.cause⟩

namespace Cursor

/-- A cursor among the same tokens elsewhere. -/
def moved (move : Move) (c : Cursor) : Cursor :=
  ⟨c.current.moved move, c.ahead.map (Placed.moved move), c.depth⟩

variable (c : Cursor)

@[simp] theorem size_moved : (c.moved move).size = c.size := List.length_map _

@[simp] theorem atBlockEnd_moved : (c.moved move).atBlockEnd = c.atBlockEnd := rfl

@[simp] theorem advance_moved : (c.moved move).advance = c.advance.moved move := by
  cases ahead : c.ahead <;> simp [advance, moved, ahead]

end Cursor

/-! ## What follows -/

section

variable {σ α β γ δ : Type} {g : σ → σ} {f : α → β} {e : γ → δ} {P : EStateM SyntaxFault σ α}
  {Q : EStateM SyntaxFault σ β} {k : α → EStateM SyntaxFault σ γ} {l : β → EStateM SyntaxFault σ δ}

/-- A result with other places. -/
def movedResult (move : Move) (g : σ → σ) (f : α → β) :
    EStateM.Result SyntaxFault σ α → EStateM.Result SyntaxFault σ β
  | .ok a s => .ok (f a) (g s)
  | .error fault s => .error (fault.moved move) (g s)

/-- With other places, which a state gets by `g` and a value by `f`, the second reads what the first
reads with the old ones. -/
def Corresponds (move : Move) (g : σ → σ) (f : α → β) (P : EStateM SyntaxFault σ α)
    (Q : EStateM SyntaxFault σ β) : Prop :=
  ∀ s, Q (g s) = movedResult move g f (P s)

namespace Corresponds

theorem value (h : Corresponds move g f P Q) {s t : σ} {a : α} (read : P s = .ok a t) :
    Q (g s) = .ok (f a) (g t) := by
  rw [h s, read]
  rfl

theorem error (h : Corresponds move g f P Q) {s t : σ} {fault : SyntaxFault}
    (read : P s = .error fault t) : Q (g s) = .error (fault.moved move) (g t) := by
  rw [h s, read]
  rfl

theorem pure {a : α} {b : β} (h : f a = b) :
    Corresponds move g f (Pure.pure a : EStateM SyntaxFault σ α) (Pure.pure b) := by
  subst h
  exact fun _ => rfl

theorem bind (h : Corresponds move g f P Q) (hk : ∀ a, Corresponds move g e (k a) (l (f a))) :
    Corresponds move g e (P >>= k) (Q >>= l) := by
  intro s
  change EStateM.bind Q l (g s) = movedResult move g e (EStateM.bind P k s)
  rw [EStateM.bind, EStateM.bind, h s]
  cases P s with
  | ok a t => exact hk a t
  | error fault t => rfl

theorem map (h : Corresponds move g f P Q) {i : α → γ} {j : β → δ} (hi : ∀ a, e (i a) = j (f a)) :
    Corresponds move g e (i <$> P) (j <$> Q) := by
  have bound := h.bind (k := fun a => Pure.pure (i a)) (l := fun b => Pure.pure (j b))
    fun a => pure (hi a)
  rwa [bind_pure_comp, bind_pure_comp] at bound

/-- A test that does not look at places decides alike. -/
theorem ite {test : Prop} [Decidable test] {P' : EStateM SyntaxFault σ α}
    {Q' : EStateM SyntaxFault σ β} (h : Corresponds move g f P Q)
    (h' : Corresponds move g f P' Q') :
    Corresponds move g f (if test then P else P') (if test then Q else Q') := by
  split
  · exact h
  · exact h'

/-- Something may come first where a test says so. -/
theorem first {test : Prop} [Decidable test] {P' : EStateM SyntaxFault σ PUnit}
    {k : PUnit → EStateM SyntaxFault σ α} {l : PUnit → EStateM SyntaxFault σ β}
    (h : Corresponds move g (fun u => u) P' P') (hk : Corresponds move g f (k ⟨⟩) (l ⟨⟩)) :
    Corresponds move g f (if test then P' >>= k else k ⟨⟩) (if test then P' >>= l else l ⟨⟩) :=
  ite (h.bind fun _ => hk) hk

end Corresponds

end

/-! ## Parsers of tokens -/

namespace Parser

/-- A parser has the same values wherever its tokens stand. -/
abbrev Placeless (move : Move) {α : Type} (P : Parser α) : Prop :=
  Corresponds move (Cursor.moved move) (fun a => a) P P

variable {α β : Type} {f : α → β} {goOn : Cursor → Bool}

theorem moves_position : Corresponds move (Cursor.moved move) move.place position position :=
  fun _ => rfl

theorem moves_get :
    Corresponds move (Cursor.moved move) (Cursor.moved move) (get : Parser Cursor) get :=
  fun _ => rfl

theorem placeless_token : Placeless move token := fun _ => rfl

theorem placeless_advance : Placeless move advance := fun c => by
  rw [advance, Cursor.advance_moved]
  rfl

theorem moves_unexpected (phrase : String) :
    Corresponds move (Cursor.moved move) f (unexpected phrase) (unexpected phrase) :=
  fun _ => rfl

theorem moves_refuse (cause : SyntaxCause) :
    Corresponds move (Cursor.moved move) f (refuse cause) (refuse cause) :=
  fun _ => rfl

theorem placeless_expect (t : Token) : Placeless move (expect t) :=
  placeless_token.bind fun _ => .ite placeless_advance (moves_unexpected _)

theorem placeless_openBlock : Placeless move openBlock :=
  (placeless_expect _).bind fun _ _ => rfl

theorem placeless_closeBlock : Placeless move closeBlock :=
  (placeless_expect _).bind fun _ _ => rfl

theorem moves_refuseBlock :
    Corresponds move (Cursor.moved move) f (refuseBlock : Parser α) (refuseBlock : Parser β) :=
  placeless_token.bind fun _ => .ite (moves_refuse _) (moves_unexpected _)

theorem moves_foldWhile (looks : ∀ c : Cursor, goOn (c.moved move) = goOn c)
    {step : α → Parser α} {step' : β → Parser β}
    (h : ∀ a, Corresponds move (Cursor.moved move) f (step a) (step' (f a))) (a : α) :
    Corresponds move (Cursor.moved move) f (foldWhile goOn step a)
      (foldWhile goOn step' (f a)) := by
  intro c
  induction a, c using foldWhile_induction goOn step with
  | finish a c ends =>
    rw [foldWhile_end (s := c) ends, foldWhile_end (s := c.moved move) ((looks c).trans ends)]
    rfl
  | more a c next d continues first less ih =>
    rw [foldWhile_cons continues first less,
      foldWhile_cons (s := c.moved move) ((looks c).trans continues) ((h a).value first)
        (by simpa using less)]
    exact ih
  | last a c next d continues first less =>
    rw [foldWhile_last continues first less,
      foldWhile_last (s := c.moved move) ((looks c).trans continues) ((h a).value first)
        (by simpa using less)]
    rfl
  | stop a c fault d continues first =>
    rw [foldWhile_stop continues first,
      foldWhile_stop (s := c.moved move) ((looks c).trans continues) ((h a).error first)]
    rfl

theorem moves_repeatWhile (looks : ∀ c : Cursor, goOn (c.moved move) = goOn c)
    {item : Parser α} {item' : Parser β}
    (h : Corresponds move (Cursor.moved move) f item item') :
    Corresponds move (Cursor.moved move) (List.map f) (repeatWhile goOn item)
      (repeatWhile goOn item') := by
  have rounds : Corresponds move (Cursor.moved move) (List.map f)
      (foldWhile goOn (fun values => do return (← item) :: values) [])
      (foldWhile goOn (fun values => do return (← item') :: values) []) :=
    moves_foldWhile looks (fun values => h.bind (l := fun b => Pure.pure (b :: values.map f))
      fun _ => .pure List.map_cons) []
  exact rounds.bind fun _ => .pure List.map_reverse

theorem placeless_repeatWhile (looks : ∀ c : Cursor, goOn (c.moved move) = goOn c)
    {item : Parser α} (h : Placeless move item) : Placeless move (repeatWhile goOn item) := by
  have rounds := moves_repeatWhile looks h
  rwa [List.map_id_fun'] at rounds

theorem placeless_string : Placeless move string := by
  refine placeless_token.bind fun t => ?_
  split
  · exact placeless_advance.bind fun _ => .pure rfl
  · exact moves_unexpected _

theorem placeless_nameOf (phrase : String) : Placeless move (nameOf phrase) := by
  refine placeless_token.bind fun t => ?_
  have behind (name : String) : Placeless move (do
      if name.isEmpty then refuse (.emptyName phrase)
      advance
      return name) :=
    .first (moves_refuse _) (placeless_advance.bind fun _ => .pure rfl)
  split
  · exact behind _
  · exact behind _
  · exact (moves_unexpected (f := fun name => name) _).bind behind

theorem placeless_segment (phrase : String) : Placeless move (segment phrase) := by
  refine placeless_advance.bind fun _ => placeless_token.bind fun t => ?_
  split
  · exact placeless_advance.bind fun _ => .pure rfl
  · exact moves_unexpected _

theorem placeless_reference (phrase : String) : Placeless move (reference phrase) := by
  refine placeless_token.bind fun t => ?_
  split
  · exact placeless_advance.bind fun _ => .pure rfl
  · refine placeless_advance.bind fun _ => ?_
    exact (placeless_repeatWhile (fun _ => rfl) (placeless_segment phrase)).bind fun _ => .pure rfl
  · exact moves_unexpected _

/-! ## Literals and predicates -/

theorem placeless_date : Placeless move date := by
  refine placeless_token.bind fun t => ?_
  split
  · split
    · exact placeless_advance.bind fun _ => .pure rfl
    · exact moves_refuse _
  · exact moves_unexpected _

theorem placeless_literal : Placeless move literal := by
  refine placeless_token.bind fun t => ?_
  split
  · exact placeless_advance.bind fun _ => .pure rfl
  · exact placeless_advance.bind fun _ => .pure rfl
  · exact placeless_advance.bind fun _ => .pure rfl
  · exact placeless_advance.bind fun _ => placeless_date.bind fun _ => .pure rfl
  · split
    · exact placeless_advance.bind fun _ => .pure rfl
    · exact moves_unexpected _
  · exact moves_unexpected _

theorem moreFollows_moved (c : Cursor) : moreFollows (c.moved move) = moreFollows c := by
  rw [moreFollows, Cursor.advance_moved]
  rfl

theorem placeless_literals : Placeless move literals := by
  refine (placeless_expect _).bind fun _ => placeless_token.bind fun _ => .ite ?_ ?_
  · exact placeless_advance.bind fun _ => .pure rfl
  · refine placeless_literal.bind fun first => ?_
    have more : Placeless move (repeatWhile moreFollows (do advance; literal)) :=
      placeless_repeatWhile moreFollows_moved (placeless_advance.bind fun _ => placeless_literal)
    refine more.bind fun more => placeless_token.bind fun _ => .first placeless_advance ?_
    exact (placeless_expect _).bind fun _ => .pure rfl

theorem placeless_withLiteral (op : Operator) : Placeless move (withLiteral op) :=
  placeless_literal.bind fun _ => .pure rfl

theorem placeless_withOperands (op : Operator) : Placeless move (withOperands op) := by
  cases op with
  | member negated => exact placeless_literals.bind fun _ => .pure rfl
  | _ => exact placeless_withLiteral _

theorem placeless_state : Placeless move state := by
  refine placeless_token.bind fun t => ?_
  refine .first placeless_advance (placeless_token.bind fun t => ?_)
  split
  · exact placeless_advance.bind fun _ => .pure rfl
  · exact moves_unexpected _

theorem placeless_negation : Placeless move negation := by
  refine placeless_token.bind fun t => ?_
  split
  · split
    · exact placeless_advance.bind fun _ => placeless_withOperands _
    · exact moves_unexpected _
  · exact moves_unexpected _

theorem placeless_addressing : Placeless move addressing := by
  refine placeless_token.bind fun t => ?_
  split
  · exact placeless_advance.bind fun _ => placeless_withLiteral _
  · refine placeless_token.bind fun t => ?_
    split
    · exact placeless_advance.bind fun _ => placeless_withLiteral _
    · refine placeless_advance.bind fun _ => placeless_token.bind fun _ => ?_
      exact .first (moves_unexpected _) (placeless_advance.bind fun _ => placeless_withLiteral _)
    · exact moves_unexpected _

theorem placeless_range : Placeless move range := by
  refine placeless_literal.bind fun low => (placeless_expect _).bind fun _ => ?_
  exact placeless_literal.bind fun _ => .pure rfl

theorem placeless_wordOperation (text : String) : Placeless move (wordOperation text) := by
  rw [wordOperation.eq_def]
  split
  · exact placeless_advance.bind fun _ => placeless_state
  · exact placeless_advance.bind fun _ => placeless_negation
  · exact placeless_advance.bind fun _ => placeless_addressing
  · exact placeless_advance.bind fun _ => placeless_range
  · exact placeless_advance.bind fun _ => .pure rfl
  · exact placeless_advance.bind fun _ => .pure rfl
  · split
    · exact placeless_advance.bind fun _ => placeless_withOperands _
    · exact moves_unexpected _

theorem placeless_operation : Placeless move operation := by
  refine placeless_token.bind fun t => ?_
  split
  · exact placeless_advance.bind fun _ => placeless_withLiteral _
  · refine placeless_token.bind fun t => ?_
    split
    · exact placeless_wordOperation _
    · exact moves_unexpected _

/-- Operands that do not fit are a fault of the place where their operator starts. -/
theorem placeless_predicate : Placeless move predicate := by
  refine moves_position.bind fun place => placeless_operation.bind fun (op, operands) => ?_
  simp only
  split
  · exact .pure rfl
  · exact fun _ => rfl

/-! ## Statements -/

theorem placeless_statementTail {block : Parser (List Statement)} (h : Placeless move block)
    (name : String) : Placeless move (statementTail block name) := by
  refine placeless_token.bind fun t => ?_
  split
  · refine placeless_advance.bind fun _ => placeless_string.bind fun key => ?_
    refine (placeless_expect _).bind fun _ => placeless_predicate.bind fun _ => .pure rfl
  · exact h.bind fun _ => .pure rfl
  · exact placeless_predicate.bind fun _ => .pure rfl

theorem placeless_statementWith {block : Parser (List Statement)} (h : Placeless move block) :
    Placeless move (statementWith block) := by
  refine placeless_token.bind fun t => .ite ?_ ?_
  · refine placeless_advance.bind fun _ => (placeless_nameOf _).bind fun name => ?_
    refine placeless_token.bind fun t => ?_
    split
    · exact h.bind fun _ => .pure rfl
    · exact .pure rfl
  · exact (placeless_nameOf _).bind fun _ => placeless_statementTail h _

theorem placeless_statements {statement : Parser Statement} (h : Placeless move statement) :
    Placeless move (statements statement) := by
  refine moves_get.bind fun c => ?_
  rw [Cursor.atBlockEnd_moved]
  refine .ite (.pure rfl) (h.bind fun first => ?_)
  have next : Placeless move (do
      if (← token) = .word "and" then advance
      statement) :=
    placeless_token.bind fun _ => .first placeless_advance h
  exact (placeless_repeatWhile (fun _ => rfl) next).bind fun _ => .pure rfl

/-- **A block has the same statements wherever it stands.** -/
theorem placeless_block (levels : Nat) : Placeless move (block levels) := by
  induction levels with
  | zero => exact moves_refuseBlock
  | succ levels ih =>
    refine placeless_openBlock.bind fun _ => ?_
    refine (placeless_statements (placeless_statementWith ih)).bind fun children => ?_
    exact placeless_closeBlock.bind fun _ => .pure rfl

end Parser

end Compliance
