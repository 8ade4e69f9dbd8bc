import Compliance.Proofs.Declaration.Counting
import Compliance.Proofs.Declaration.Fragments
import Compliance.Proofs.Declaration.Nested
import Compliance.Proofs.Declaration.Recovered

/-!
# The counter is right

Wherever a production is entered the counter says how many blocks are open on the call stack,
also behind a fault: what is read to its end leaves the counter as it was, and going on behind
a fault sets it back to what it was in front of the faulty member.  So a block is refused by
the counter just where no level is left to spare.  Reading with the counter is reading with
levels, and the call stack never holds more blocks than the limit.

## Main definitions

* `Counting.Same` — two results are the same, with the counter right wherever something is entered.
* `Counting.Follows` — reading with the counter does what reading with levels does.
* `Counting.runFrom_follows` — so it does with a whole text.
-/

namespace Compliance

open Declaration

namespace Counting

variable {α β : Type} {r : Nat}

/-! ## The same as with levels -/

/-- A parser stays among the tokens of a text, and has a value only with the counter as before. -/
structure Flat (P : Parser α) : Prop where
  ok : ∀ {c d : Cursor} {a : α}, c.Scanned → P c = .ok a d → d.Scanned ∧ d.depth = c.depth
  error : ∀ {c d : Cursor} {fault : SyntaxFault}, c.Scanned → P c = .error fault d → d.Scanned

theorem Flat.of_level {P : Parser α} (h : P.Level) : Flat P where
  ok hc result := ⟨((h hc).ok result).scanned hc, ((h hc).ok result).depth⟩
  error hc result := by
    obtain ⟨n, climbs⟩ := (h hc).error result
    exact climbs.scanned hc

theorem flat_advance : Flat Parser.advance where
  ok {c d a} hc result := by
    cases result
    exact ⟨hc.advance, Cursor.depth_advance c⟩
  error hc result := by cases result

theorem flat_get : Flat get where
  ok hc result := by
    cases result
    exact ⟨hc, rfl⟩
  error hc result := by cases result

/-- Results of reading with the counter and of reading with levels are the same.  What has been
entered has been entered with the counter right, the call stack is as it was, and the counter stands
at a number where there is a value. -/
inductive Same (opened behind : Nat) (entries : List Entry) :
    EStateM.Result SyntaxFault (State r) α → EStateM.Result SyntaxFault Progress α → Prop
  | ok {a : α} {p : Progress} {new : List Entry} : (∀ e ∈ new, e.Right) → p.cursor.Scanned →
      p.cursor.depth = behind →
      Same opened behind entries (.ok a ⟨p, opened, entries ++ new⟩) (.ok a p)
  | error {fault : SyntaxFault} {p : Progress} {new : List Entry} : (∀ e ∈ new, e.Right) →
      p.cursor.Scanned →
      Same opened behind entries (.error fault ⟨p, opened, entries ++ new⟩) (.error fault p)

/-- Among the tokens of a text, with so many blocks open on the call stack, reading with the counter
does what reading with levels does, and takes the counter from one number to another. -/
def Follows (opened before behind : Nat) (x : Counting r α) (f : Recovering α) : Prop :=
  ∀ p entries, p.cursor.Scanned → p.cursor.depth = before →
    Same opened behind entries (x ⟨p, opened, entries⟩) (f p)

variable {o n m k : Nat} {x : Counting r α} {f : Recovering α} {entries : List Entry}

/-- What has been entered before may be told apart. -/
theorem Same.append {new : List Entry} {y : EStateM.Result SyntaxFault (State r) α}
    {z : EStateM.Result SyntaxFault Progress α} (right : ∀ e ∈ new, e.Right)
    (h : Same o n (entries ++ new) y z) : Same o n entries y z := by
  cases h with
  | ok right' scanned depth =>
    rw [List.append_assoc]
    exact .ok (List.forall_mem_append.mpr ⟨right, right'⟩) scanned depth
  | error right' scanned =>
    rw [List.append_assoc]
    exact .error (List.forall_mem_append.mpr ⟨right, right'⟩) scanned

/-- A value with nothing entered on the way. -/
theorem Same.value {a : α} {p : Progress} (scanned : p.cursor.Scanned)
    (depth : p.cursor.depth = n) :
    Same (r := r) o n entries (.ok a ⟨p, o, entries⟩) (.ok a p) := by
  have same : Same (r := r) o n entries (.ok a ⟨p, o, entries ++ []⟩) (.ok a p) :=
    .ok (List.forall_mem_nil _) scanned depth
  rwa [List.append_nil] at same

/-- A fault with nothing entered on the way. -/
theorem Same.fault {fault : SyntaxFault} {p : Progress} (scanned : p.cursor.Scanned) :
    Same (r := r) (α := α) o n entries (.error fault ⟨p, o, entries⟩) (.error fault p) := by
  have same : Same (r := r) (α := α) o n entries (.error fault ⟨p, o, entries ++ []⟩)
      (.error fault p) := .error (List.forall_mem_nil _) scanned
  rwa [List.append_nil] at same

/-- A value of reading with levels is one of reading with the counter. -/
theorem Follows.value (h : Follows o n m x f) {p q : Progress} {a : α} (entries : List Entry)
    (scanned : p.cursor.Scanned) (depth : p.cursor.depth = n) (result : f p = .ok a q) :
    ∃ new : List Entry, (∀ e ∈ new, e.Right) ∧ q.cursor.Scanned ∧ q.cursor.depth = m ∧
      x ⟨p, o, entries⟩ = .ok a ⟨q, o, entries ++ new⟩ := by
  have same := h p entries scanned depth
  rw [result] at same
  generalize x ⟨p, o, entries⟩ = y at same ⊢
  cases same with
  | @ok _ _ new right scanned depth => exact ⟨new, right, scanned, depth, rfl⟩

theorem Follows.fault (h : Follows o n m x f) {p q : Progress} {fault : SyntaxFault}
    (entries : List Entry) (scanned : p.cursor.Scanned) (depth : p.cursor.depth = n)
    (result : f p = .error fault q) :
    ∃ new : List Entry, (∀ e ∈ new, e.Right) ∧ q.cursor.Scanned ∧
      x ⟨p, o, entries⟩ = .error fault ⟨q, o, entries ++ new⟩ := by
  have same := h p entries scanned depth
  rw [result] at same
  generalize x ⟨p, o, entries⟩ = y at same ⊢
  cases same with
  | @error _ _ new right scanned => exact ⟨new, right, scanned, rfl⟩

theorem Follows.pure (a : α) : Follows (r := r) o n n (Pure.pure a) (Pure.pure a) :=
  fun _ _ scanned depth => .value scanned depth

theorem Follows.bind {l : α → Counting r β} {g : α → Recovering β} (h : Follows o n m x f)
    (hl : ∀ a, Follows o m k (l a) (g a)) : Follows o n k (x >>= l) (f >>= g) := by
  intro p entries scanned depth
  change Same o k entries (EStateM.bind x l ⟨p, o, entries⟩) (EStateM.bind f g p)
  unfold EStateM.bind
  cases result : f p with
  | ok a q =>
    obtain ⟨new, right, scanned, depth, result'⟩ := h.value entries scanned depth result
    rw [result']
    exact (hl a q _ scanned depth).append right
  | error fault q =>
    obtain ⟨new, right, scanned, result'⟩ := h.fault entries scanned depth result
    rw [result']
    exact .error right scanned

theorem Follows.map (h : Follows o n m x f) (g : α → β) : Follows o n m (g <$> x) (g <$> f) := by
  have bound := h.bind fun a => Follows.pure (g a)
  rwa [bind_pure_comp, bind_pure_comp] at bound

/-- A parser that enters nothing follows itself. -/
theorem Follows.itself {P : Parser α}
    (ok : ∀ {c d : Cursor} {a : α}, c.Scanned → c.depth = n → P c = .ok a d →
      d.Scanned ∧ d.depth = m)
    (error : ∀ {c d : Cursor} {fault : SyntaxFault}, c.Scanned → P c = .error fault d →
      d.Scanned) : Follows (r := r) o n m (Parsing.take P) P.plain := by
  intro p entries scanned depth
  rw [take_state, read, lift]
  simp only [Parser.plain]
  cases result : P p.cursor with
  | ok a c =>
    obtain ⟨scanned', depth'⟩ := ok scanned depth result
    exact .value scanned' depth'
  | error fault c => exact .fault (error scanned result)

theorem Follows.take {P : Parser α} (h : Flat P) :
    Follows (r := r) o n n (Parsing.take P) P.plain :=
  .itself
    (fun scanned depth result =>
      ⟨(h.ok scanned result).1, (h.ok scanned result).2.trans depth⟩)
    h.error

/-- A production is entered where the counter is right, if that many blocks may be open. -/
theorem Follows.entered (within : n ≤ maxNesting) (production : Production)
    (h : Follows n n m x f) : Follows n n m (Parsing.enter production x) f := by
  intro p entries scanned depth
  have first := h p (entries ++ [⟨production, p.cursor.depth, n⟩]) scanned depth
  refine first.append (List.forall_mem_singleton.mpr ⟨depth, ?_⟩)
  exact depth.le.trans within

/-! ### Blocks -/

/-- The parts of a parser are read one after the other. -/
theorem plain_bind (P : Parser α) (l : α → Parser β) :
    (P >>= l).plain = P.plain >>= fun a => (l a).plain := by
  funext p
  change (P >>= l).plain p = EStateM.bind P.plain (fun a => (l a).plain) p
  simp only [EStateM.bind, Parser.plain]
  cases result : P p.cursor with
  | ok a c => rw [bind_ok result]
  | error fault c => rw [bind_error result]

theorem openBlock_run (s : State r) :
    openBlock s =
      if s.progress.cursor.token = .braceOpen ∧ maxNesting ≤ s.progress.cursor.depth then
        .error ⟨s.progress.cursor.current.position, .tooDeep⟩ s
      else read Parser.openBlock s := by
  change (if s.progress.cursor.token = .braceOpen ∧ maxNesting ≤ s.progress.cursor.depth then _
    else _ : Counting r Unit) s = _
  split <;> rfl

/-- Below the limit an opening brace is taken. -/
theorem Follows.openBlock (below : n < maxNesting) :
    Follows (r := r) o n (n + 1) Parsing.openBlock Parser.openBlock.plain := by
  intro p entries scanned depth
  rw [openBlock_state, openBlock_run, if_neg (by dsimp only; omega), ← take_state]
  refine Follows.itself (fun scanned depth result => ?_) (fun scanned result => ?_) p entries
    scanned depth
  · obtain ⟨-, rfl⟩ := Parser.openBlock_eq_ok.mp result
    exact ⟨scanned.advance.withDepth _, congrArg (· + 1) depth⟩
  · rwa [Parser.openBlock_stops result]

/-- What is in a block is read with one block more on the call stack. -/
theorem Follows.inside (h : Follows (o + 1) n m x f) :
    Follows o n m (Parsing.inside x) f := by
  intro p entries scanned depth
  rw [inside_state, Counting.inside]
  dsimp only
  cases result : f p with
  | ok a q =>
    obtain ⟨new, right, scanned, depth, result'⟩ := h.value entries scanned depth result
    rw [result']
    exact .ok right scanned depth
  | error fault q =>
    obtain ⟨new, right, scanned, result'⟩ := h.fault entries scanned depth result
    rw [result']
    exact .error right scanned

theorem Follows.closeBlock :
    Follows (r := r) o (n + 1) n (Parsing.take Parser.closeBlock) Parser.closeBlock.plain := by
  refine .itself (fun scanned depth result => ?_) (fun scanned result => ?_)
  · obtain ⟨-, rfl⟩ := Parser.closeBlock_eq_ok.mp result
    exact ⟨scanned.advance.withDepth _, congrArg (· - 1) depth⟩
  · rwa [Parser.closeBlock_stops result]

/-- At the limit no block opens. -/
theorem Follows.refuseBlock (l : Unit → Counting r α) :
    Follows o maxNesting m (Parsing.openBlock >>= l) Parser.refuseBlock.plain := by
  intro p entries scanned depth
  change Same o m entries (EStateM.bind Counting.openBlock l ⟨p, o, entries⟩)
    ((Parser.refuseBlock : Parser α).plain p)
  rw [EStateM.bind, openBlock_run, Parser.plain, Parser.refuseBlock, Parser.token_bind]
  by_cases opens : p.cursor.token = .braceOpen
  · rw [if_pos ⟨opens, depth.ge⟩, if_pos opens]
    exact .fault scanned
  · have missing : Parser.openBlock p.cursor =
        .error ⟨p.cursor.current.position, .expected Token.braceOpen.describe p.cursor.token⟩
          p.cursor := by
      refine bind_error ?_
      rw [Parser.expect, Parser.token_bind, if_neg opens]
      rfl
    rw [if_neg (by simp [opens]), if_neg opens, Counting.read, lift, Parser.plain, missing]
    exact .fault scanned

/-! ### Repetitions -/

/-- A repetition does what a repetition does, if their steps do the same. -/
theorem Follows.foldWhile {goOn : Cursor → Bool} {step : β → Counting r β}
    {step' : β → Parser β} (h : ∀ b, Follows o n n (step b) (step' b).plain) (b : β) :
    Follows o n n (Parser.foldWhile goOn step b)
      (Parser.plain (Parser.foldWhile goOn step' b)) := by
  intro p entries scanned depth
  obtain ⟨c, recorded⟩ := p
  induction b, c using Parser.foldWhile_induction goOn step' generalizing entries with
  | finish b c ends =>
    change goOn c = false at ends
    rw [Parser.plain, Parser.foldWhile_end (s := c) ends, Parser.foldWhile_end ends]
    exact Follows.pure b _ entries scanned depth
  | more b c next d continues taken less ih =>
    change goOn c = true at continues
    have read : (step' b).plain ⟨c, recorded⟩ = .ok next ⟨d, recorded⟩ := by
      rw [Parser.plain, taken]
    obtain ⟨new, right, scanned, depth, read'⟩ := (h b).value entries scanned depth read
    rw [Parser.plain, Parser.foldWhile_cons (s := c) continues taken less,
      Parser.foldWhile_cons continues read' less]
    exact (ih (entries ++ new) scanned depth).append right
  | last b c next d continues taken less =>
    change goOn c = true at continues
    have read : (step' b).plain ⟨c, recorded⟩ = .ok next ⟨d, recorded⟩ := by
      rw [Parser.plain, taken]
    obtain ⟨new, right, scanned, depth, read'⟩ := (h b).value entries scanned depth read
    rw [Parser.plain, Parser.foldWhile_last (s := c) continues taken less,
      Parser.foldWhile_last continues read' less]
    exact .ok right scanned depth
  | stop b c fault d continues taken =>
    change goOn c = true at continues
    have stops : (step' b).plain ⟨c, recorded⟩ = .error fault ⟨d, recorded⟩ := by
      rw [Parser.plain, taken]
    obtain ⟨new, right, scanned, stops'⟩ := (h b).fault entries scanned depth stops
    rw [Parser.plain, Parser.foldWhile_stop (s := c) continues taken,
      Parser.foldWhile_stop continues stops']
    exact .error right scanned

theorem Follows.repeatWhile {goOn : Cursor → Bool} {item : Counting r α} {item' : Parser α}
    (h : Follows o n n item item'.plain) :
    Follows o n n (Parser.repeatWhile goOn item)
      (Parser.plain (Parser.repeatWhile goOn item')) := by
  simp only [Parser.repeatWhile, plain_bind]
  refine (Follows.foldWhile (fun values => ?_) []).bind fun values => Follows.pure _
  rw [plain_bind]
  exact h.bind fun a => Follows.pure _

/-- The members of a block are the same, if each is. -/
theorem Follows.membersAt {mode : Mode} {keywords : List String} (h : Follows o n n x f) :
    Follows o n n (Recovering.membersAt mode keywords n x)
      (Recovering.membersAt mode keywords n f) := by
  intro p entries scanned depth
  induction p using Recovering.round_induction Recovering.atBlockEnd_or mode keywords n f
    generalizing entries with
  | finish p ends =>
    rw [Recovering.membersAt_end (s := p) ends,
      Recovering.membersAt_end (s := State.mk p o entries) ends]
    exact Follows.pure [] p entries scanned depth
  | more p a q continues taken less ih =>
    obtain ⟨new, right, scanned, depth, taken'⟩ := h.value entries scanned depth taken
    rw [Recovering.membersAt_cons (s := p) continues taken less,
      Recovering.membersAt_cons (s := State.mk p o entries) continues taken' less,
      EStateM.map, EStateM.map]
    have behind := (ih (entries ++ new) scanned depth).append right
    generalize Recovering.membersAt mode keywords n x ⟨q, o, entries ++ new⟩ = y,
      Recovering.membersAt mode keywords n f q = z at behind
    cases behind with
    | ok right scanned depth => exact .ok right scanned depth
    | error right scanned => exact .error right scanned
  | last p a q continues taken less =>
    obtain ⟨new, right, scanned, depth, taken'⟩ := h.value entries scanned depth taken
    rw [Recovering.membersAt_last (s := p) continues taken less,
      Recovering.membersAt_last (s := State.mk p o entries) continues taken' less]
    exact .ok right scanned depth
  | past p fault q s continues taken recovers less ih =>
    obtain ⟨new, right, scanned, taken'⟩ := h.fault entries scanned depth taken
    obtain ⟨suffix, depth⟩ := Recovering.recover_even recovers
    rw [Recovering.membersAt_recover (s := p) continues taken recovers less,
      Recovering.membersAt_recover (s := State.mk p o entries) continues taken'
        (lift_ok recovers) less]
    exact (ih (entries ++ new) (scanned.of_suffix suffix) depth).append right
  | rest p fault q s continues taken recovers less =>
    obtain ⟨new, right, scanned, taken'⟩ := h.fault entries scanned depth taken
    obtain ⟨suffix, depth⟩ := Recovering.recover_even recovers
    rw [Recovering.membersAt_recover_last (s := p) continues taken recovers less,
      Recovering.membersAt_recover_last (s := State.mk p o entries) continues taken'
        (lift_ok recovers) less]
    exact .ok right (scanned.of_suffix suffix) depth
  | stop p fault q stop s continues taken stops =>
    obtain ⟨new, right, scanned, taken'⟩ := h.fault entries scanned depth taken
    rw [Recovering.membersAt_stop (s := p) continues taken stops,
      Recovering.membersAt_stop (s := State.mk p o entries) continues taken' (lift_error stops)]
    refine .error right ?_
    rwa [Recovering.recover_stops stops]

theorem Follows.members {mode : Mode} {keywords : List String} (h : Follows o n n x f) :
    Follows o n n (Recovering.members mode keywords x) (Recovering.members mode keywords f) := by
  intro p entries scanned depth
  rw [Recovering.members, Recovering.members, cursor_state, HasCursor.cursor_progress, depth]
  exact h.membersAt p entries scanned depth

/-! ### Productions -/

theorem follows_token : Follows (r := r) o n n (Parsing.take Parser.token)
    Parser.token.plain :=
  .take (.of_level Parser.level_token)

theorem follows_unexpected (phrase : String) :
    Follows (r := r) o n m (Parsing.take (Parser.unexpected phrase : Parser α))
      (Parser.unexpected phrase).plain :=
  .itself (fun _ _ result => by cases result) fun scanned result => by
    cases result
    exact scanned

theorem follows_refuse (cause : SyntaxCause) :
    Follows (r := r) o n m (Parsing.take (Parser.refuse cause : Parser α))
      (Parser.refuse cause).plain :=
  .itself (fun _ _ result => by cases result) fun scanned result => by
    cases result
    exact scanned

section

variable {block : Counting r (List Statement)} {block' : Parser (List Statement)}

theorem follows_statementTail (h : Follows o n n block block'.plain) (name : String) :
    Follows o n n (Parser.statementTail block name)
      (Parser.plain (Parser.statementTail block' name)) := by
  simp only [Parser.statementTail, Parsing.take_cursor, plain_bind]
  refine follows_token.bind fun t => ?_
  split
  · simp only [plain_bind]
    refine (Follows.take flat_advance).bind fun _ => ?_
    refine (Follows.take (.of_level .string)).bind fun key => ?_
    refine (Follows.take (.of_level (.expect fun _ => rfl))).bind fun _ => ?_
    exact (Follows.take (.of_level .predicate)).bind fun _ => Follows.pure _
  · simp only [plain_bind]
    exact h.bind fun _ => Follows.pure _
  · simp only [plain_bind]
    exact (Follows.take (.of_level .predicate)).bind fun _ => Follows.pure _

theorem follows_statementWith (within : n ≤ maxNesting) (h : Follows n n n block block'.plain) :
    Follows n n n (Parser.statementWith block) (Parser.plain (Parser.statementWith block')) := by
  refine .entered within .statement ?_
  simp only [Parser.statementWith, Parsing.take_cursor, Parsing.enter_cursor, plain_bind]
  refine follows_token.bind fun t => ?_
  split
  · simp only [plain_bind]
    refine (Follows.take flat_advance).bind fun _ => ?_
    refine (Follows.take (.of_level (.nameOf _))).bind fun name => follows_token.bind fun t => ?_
    split
    · rw [plain_bind]
      exact h.bind fun _ => Follows.pure _
    · exact Follows.pure _
  · rw [plain_bind]
    exact (Follows.take (.of_level (.nameOf _))).bind fun name => follows_statementTail h name

end

theorem follows_nextStatement {statement : Counting r Statement} {statement' : Parser Statement}
    (h : Follows o n n statement statement'.plain) :
    Follows o n n (Parser.nextStatement statement)
      (Parser.plain (Parser.nextStatement statement')) := by
  simp only [Parser.nextStatement, Parsing.take_cursor, plain_bind]
  refine follows_token.bind fun t => ?_
  split
  · rw [plain_bind]
    exact (Follows.take flat_advance).bind fun _ => h
  · exact h

theorem follows_statements {statement : Counting r Statement} {statement' : Parser Statement}
    (h : Follows o n n statement statement'.plain) :
    Follows o n n (Parser.statements statement) (Parser.plain (Parser.statements statement')) := by
  simp only [Parser.statements, Parsing.take_cursor, plain_bind]
  refine (Follows.take flat_get).bind fun c => ?_
  split
  · exact Follows.pure _
  · simp only [plain_bind]
    refine h.bind fun first => ?_
    exact (follows_nextStatement h).repeatWhile.bind fun more => Follows.pure _

/-- **With levels to spare up to the limit a block is read as with the counter**, if the call stack
has room for all of them. -/
theorem follows_block {levels stack : Nat} (spare : n + levels = maxNesting)
    (enough : levels < stack) :
    Follows (r := r) n n n (Parser.block stack) (Parser.plain (Parser.block levels)) := by
  induction levels generalizing n stack with
  | zero =>
    obtain ⟨stack, rfl⟩ := Nat.exists_eq_succ_of_ne_zero (Nat.ne_of_gt enough)
    obtain rfl : n = maxNesting := spare
    exact .entered (Nat.le_refl _) .block (.refuseBlock _)
  | succ levels ih =>
    obtain ⟨stack, rfl⟩ := Nat.exists_eq_succ_of_ne_zero (Nat.ne_zero_of_lt enough)
    refine .entered (by omega) .block ?_
    simp only [Parser.block_succ, plain_bind]
    refine (Follows.openBlock (by omega)).bind fun _ => ?_
    have inner : Follows (n + 1) (n + 1) (n + 1) (Parser.block stack)
        (Parser.plain (Parser.block levels)) := ih (by omega) (by omega)
    have statements := follows_statements (follows_statementWith (by omega) inner)
    exact statements.inside.bind fun children => Follows.closeBlock.bind fun _ => Follows.pure _

/-! ### Rules -/

theorem follows_rulePart (file name : String) {levels stack : Nat}
    (spare : n + levels = maxNesting) (enough : levels < stack) (parts : Parser.RuleParts) :
    Follows (r := r) n n n (Parser.rulePart file name stack parts)
      (Parser.plain (Parser.rulePart file name levels parts)) := by
  -- A block that comes a second time is refused.
  have again (word : String) (repeated : Bool) (k : List Statement → Parser.RuleParts) :
      Follows (r := r) n n n (do
        if repeated then Parsing.take (Parser.refuse (.repeatedBlock name word))
        Parsing.take Parser.advance
        return k (← Parser.block stack))
      (do
        if repeated then Parser.refuse (.repeatedBlock name word)
        Parser.advance
        return k (← Parser.block levels) : Parser Parser.RuleParts).plain := by
    have behind : Follows (r := r) n n n
        (do Parsing.take Parser.advance; return k (← Parser.block stack))
        (do Parser.advance; return k (← Parser.block levels) : Parser Parser.RuleParts).plain := by
      simp only [plain_bind]
      refine (Follows.take flat_advance).bind fun _ => ?_
      exact (follows_block spare enough).bind fun _ => Follows.pure _
    cases repeated with
    | false => exact behind
    | true =>
      have refused : Follows (r := r) n n n
          (Parsing.take (Parser.refuse (.repeatedBlock name word) : Parser Unit))
          (Parser.refuse (.repeatedBlock name word)).plain := follows_refuse _
      have stopped := refused.bind fun _ => behind
      rwa [← plain_bind] at stopped
  refine .entered (by omega) (.member .rule) ?_
  simp only [Parser.rulePart, Parsing.take_cursor, Parsing.enter_cursor, plain_bind]
  refine follows_token.bind fun t => ?_
  split
  · simp only [plain_bind]
    exact (Follows.take (.of_level (.setting file))).bind fun _ => Follows.pure _
  · exact again _ _ _
  · exact again _ _ _
  · exact follows_unexpected _

theorem refuseBlock_bind (l : α → Parser β) :
    (Parser.refuseBlock >>= l : Parser β) = Parser.refuseBlock := by
  funext c
  rw [Parser.refuseBlock, bind_assoc, Parser.refuseBlock]
  rw [Parser.token_bind, Parser.token_bind]
  split <;> rfl

theorem follows_ruleBody (file name : String) {levels stack : Nat}
    (spare : n + 1 + levels = maxNesting) (enough : levels < stack) :
    Follows (r := r) n n n (Parser.ruleBody file name stack)
      (Parser.plain (Parser.ruleBody file name levels)) := by
  simp only [Parser.ruleBody, Parsing.take_cursor, Parsing.openBlock_cursor, Parsing.inside_cursor,
    plain_bind]
  refine (Follows.openBlock (by omega)).bind fun _ => ?_
  have part (parts : Parser.RuleParts) : Follows (r := r) (n + 1) (n + 1) (n + 1)
      (Parser.rulePart file name stack parts)
      (Parser.plain (Parser.rulePart file name levels parts)) :=
    follows_rulePart file name spare enough parts
  refine (Follows.foldWhile part {}).inside.bind fun parts => ?_
  cases parts.assertions with
  | none => exact follows_refuse _
  | some assertions =>
    simp only [plain_bind]
    exact Follows.closeBlock.bind fun _ => Follows.pure _

theorem follows_rule (file : String) {levels stack : Nat} (spare : n + levels = maxNesting)
    (enough : levels < stack) :
    Follows (r := r) n n n (Parser.rule file stack)
      (Parser.plain (Parser.rule file levels)) := by
  obtain ⟨stack, rfl⟩ := Nat.exists_eq_succ_of_ne_zero (Nat.ne_zero_of_lt enough)
  refine .entered (by omega) (.declaration .rule) ?_
  simp only [Parser.rule, Parsing.take_cursor, Parsing.enter_cursor, plain_bind]
  refine (Follows.take (.of_level (.header file .rule))).bind fun header => ?_
  obtain ⟨name, origin⟩ := header
  refine (Follows.take (.of_level (.expect fun _ => rfl))).bind fun _ => ?_
  refine (Follows.take (.of_level (.reference _))).bind fun target => ?_
  cases levels with
  | zero =>
    obtain rfl : n = maxNesting := spare
    simp only [refuseBlock_bind, Parser.ruleBody, bind_assoc]
    exact .refuseBlock _
  | succ below =>
    simp only [plain_bind]
    exact (follows_ruleBody file name (by omega) (by omega)).bind fun _ => Follows.pure _

/-! ### Declarations with members -/

section

variable {reader : Reader} {levels stack : Nat}

theorem follows_settingMember :
    Follows (r := r) o n n reader.settingMember reader.settingMember :=
  (Follows.take (.of_level (.setting _))).map _

theorem follows_inclusionMember (kinds : List DeclarationKind) :
    Follows (r := r) o n n (reader.inclusionMember kinds) (reader.inclusionMember kinds) :=
  (Follows.take (.of_level (.inclusion _ kinds))).map _

theorem follows_groupMember (spare : n + levels = maxNesting) (enough : levels < stack) :
    Follows (r := r) n n n (reader.groupMember stack) (reader.groupMember levels) := by
  refine .entered (by omega) (.member .group) (follows_token.bind fun t => ?_)
  split
  · exact follows_settingMember
  · exact follows_inclusionMember _
  · exact (follows_rule reader.file spare enough).map _
  · exact follows_unexpected _

theorem follows_group (spare : n + levels = maxNesting) (enough : levels < stack) :
    Follows (r := r) n n n (reader.group stack) (reader.group levels) := by
  obtain ⟨stack, rfl⟩ := Nat.exists_eq_succ_of_ne_zero (Nat.ne_zero_of_lt enough)
  refine .entered (by omega) (.declaration .group) ?_
  refine (Follows.take (.of_level (.header reader.file .group))).bind fun (name, origin) => ?_
  cases levels with
  | zero =>
    obtain rfl : n = maxNesting := spare
    exact .refuseBlock _
  | succ below =>
    refine (Follows.openBlock (by omega)).bind fun _ => ?_
    have member : Follows (r := r) (n + 1) (n + 1) (n + 1) (reader.groupMember stack)
        (reader.groupMember below) := follows_groupMember (by omega) (by omega)
    exact member.members.inside.bind fun members => Follows.closeBlock.bind fun _ => Follows.pure _

theorem follows_moduleMember {inner : Counting r Module} {inner' : Recovering Module}
    (h : Follows n n n inner inner') (spare : n + levels = maxNesting) (enough : levels < stack) :
    Follows n n n (reader.moduleMember stack inner) (reader.moduleMember levels inner') := by
  refine .entered (by omega) (.member .module) (follows_token.bind fun t => ?_)
  split
  · exact follows_settingMember
  · exact follows_inclusionMember _
  · exact h.map _
  · exact (follows_group spare enough).map _
  · exact (follows_rule reader.file spare enough).map _
  · exact follows_unexpected _

/-- **With levels to spare up to the limit a module is read as with the counter.** -/
theorem follows_module (spare : n + levels = maxNesting) (enough : levels < stack) :
    Follows (r := r) n n n (reader.module stack) (reader.module levels) := by
  induction levels generalizing n stack with
  | zero =>
    obtain ⟨stack, rfl⟩ := Nat.exists_eq_succ_of_ne_zero (Nat.ne_of_gt enough)
    obtain rfl : n = maxNesting := spare
    refine .entered (Nat.le_refl _) (.declaration .module) ?_
    exact (Follows.take (.of_level (.header reader.file .module))).bind fun _ => .refuseBlock _
  | succ below ih =>
    obtain ⟨stack, rfl⟩ := Nat.exists_eq_succ_of_ne_zero (Nat.ne_zero_of_lt enough)
    refine .entered (by omega) (.declaration .module) ?_
    refine (Follows.take (.of_level (.header reader.file .module))).bind fun (name, origin) => ?_
    refine (Follows.openBlock (by omega)).bind fun _ => ?_
    have inner : Follows (r := r) (n + 1) (n + 1) (n + 1) (reader.module stack)
        (reader.module below) := ih (by omega) (by omega)
    have member : Follows (n + 1) (n + 1) (n + 1)
        (reader.moduleMember stack (reader.module stack))
        (reader.moduleMember below (reader.module below)) :=
      follows_moduleMember inner (by omega) (by omega)
    exact member.members.inside.bind fun members => Follows.closeBlock.bind fun _ => Follows.pure _

theorem follows_planMember (spare : n + levels = maxNesting) (enough : levels < stack) :
    Follows (r := r) n n n (reader.planMember stack) (reader.planMember levels) := by
  refine .entered (by omega) (.member .plan) (follows_token.bind fun t => ?_)
  split
  · exact follows_settingMember
  · exact follows_inclusionMember _
  · exact (follows_module spare enough).map _
  · exact follows_unexpected _

theorem follows_plan (spare : n + levels = maxNesting) (enough : levels < stack) :
    Follows (r := r) n n n (reader.plan stack) (reader.plan levels) := by
  obtain ⟨stack, rfl⟩ := Nat.exists_eq_succ_of_ne_zero (Nat.ne_zero_of_lt enough)
  refine .entered (by omega) (.declaration .plan) ?_
  refine (Follows.take (.of_level (.header reader.file .plan))).bind fun (name, origin) => ?_
  cases levels with
  | zero =>
    obtain rfl : n = maxNesting := spare
    exact .refuseBlock _
  | succ below =>
    refine (Follows.openBlock (by omega)).bind fun _ => ?_
    have member : Follows (r := r) (n + 1) (n + 1) (n + 1) (reader.planMember stack)
        (reader.planMember below) := follows_planMember (by omega) (by omega)
    exact member.members.inside.bind fun members => Follows.closeBlock.bind fun _ => Follows.pure _

/-! ### Source texts -/

theorem follows_declarationOf (enough : maxNesting < r) (kind : DeclarationKind) :
    Follows (r := r) 0 0 0 (reader.declarationOf kind) (reader.declarationOf kind) := by
  cases kind with
  | plan => exact (follows_plan (Nat.zero_add _) enough).map _
  | module => exact (follows_module (Nat.zero_add _) enough).map _
  | group => exact (follows_group (Nat.zero_add _) enough).map _
  | rule => exact (follows_rule reader.file (Nat.zero_add _) enough).map _

theorem follows_declaration (enough : maxNesting < r) (kind : DeclarationKind) :
    Follows (r := r) 0 0 0 (reader.declaration kind) (reader.declaration kind) := by
  refine .entered (Nat.zero_le _) (.declaration kind) (follows_token.bind fun t => ?_)
  cases Parser.keywordAmong? DeclarationKind.all t with
  | none => exact follows_unexpected _
  | some found =>
    by_cases wrong : found ≠ kind
    · simp only [if_pos wrong]
      exact (follows_refuse (α := Unit) _).bind fun _ => follows_declarationOf enough kind
    · simp only [if_neg wrong]
      exact follows_declarationOf enough kind

theorem follows_topLevel (enough : maxNesting < r) (kind : DeclarationKind) :
    Follows (r := r) 0 0 0 (reader.topLevel kind) (reader.topLevel kind) := by
  refine follows_token.bind fun t => ?_
  split
  · exact .itself (fun _ _ result => by cases result) fun scanned result => by
      cases result
      exact scanned.advance
  · exact follows_declaration enough kind

/-- **Reading a text with the counter is reading it with levels**, also behind its faults, and the
counter is right and within the limit wherever a production is entered. -/
theorem runFrom_follows (enough : maxNesting < r) (kind : DeclarationKind) {p : Progress}
    (entries : List Entry) (scanned : p.cursor.Scanned) (depth : p.cursor.depth = 0) :
    ∃ (new : List Entry) (q : Progress), (∀ e ∈ new, e.Right) ∧
      reader.runFrom kind (⟨p, 0, entries⟩ : State r) =
        (reader.run kind p, ⟨q, 0, entries ++ new⟩) := by
  have top : Follows (r := r) 0 0 0 (reader.topLevel kind) (reader.topLevel kind) :=
    follows_topLevel enough kind
  induction p using Recovering.round_induction Recovering.eof_or reader.mode Reader.topKeywords 0
    (reader.topLevel kind) generalizing entries with
  | finish p ended =>
    refine ⟨[], p, List.forall_mem_nil _, ?_⟩
    rw [Reader.runFrom_eof (s := State.mk p 0 entries) ended, Reader.run_eof ended, List.append_nil]
    rfl
  | more p found q continues taken less ih =>
    obtain ⟨new, right, scanned, depth, taken'⟩ := top.value entries scanned depth taken
    obtain ⟨behind, last, right', same⟩ := ih (entries ++ new) scanned depth
    refine ⟨new ++ behind, last, List.forall_mem_append.mpr ⟨right, right'⟩, ?_⟩
    rw [Reader.run_cons continues taken less,
      Reader.runFrom_cons (s := State.mk p 0 entries) continues taken' less, same,
      List.append_assoc]
  | last p found q continues taken less =>
    obtain ⟨new, right, scanned, depth, taken'⟩ := top.value entries scanned depth taken
    refine ⟨new, q, right, ?_⟩
    rw [Reader.run_last continues taken less,
      Reader.runFrom_last (s := State.mk p 0 entries) continues taken' less]
    rfl
  | past p fault q s continues taken recovers less ih =>
    obtain ⟨new, right, scanned, taken'⟩ := top.fault entries scanned depth taken
    obtain ⟨suffix, depth⟩ := Recovering.recover_even recovers
    obtain ⟨behind, last, right', same⟩ := ih (entries ++ new) (scanned.of_suffix suffix) depth
    refine ⟨new ++ behind, last, List.forall_mem_append.mpr ⟨right, right'⟩, ?_⟩
    rw [Reader.run_recover continues taken recovers less,
      Reader.runFrom_recover (s := State.mk p 0 entries) continues taken'
        (lift_ok recovers) less, same, List.append_assoc]
  | rest p fault q s continues taken recovers less =>
    obtain ⟨new, right, scanned, taken'⟩ := top.fault entries scanned depth taken
    refine ⟨new, s, right, ?_⟩
    rw [Reader.run_recover_last continues taken recovers less,
      Reader.runFrom_recover_last (s := State.mk p 0 entries) continues taken'
        (lift_ok recovers) less]
    rfl
  | stop p fault q stop s continues taken stops =>
    obtain ⟨new, right, scanned, taken'⟩ := top.fault entries scanned depth taken
    refine ⟨new, s, right, ?_⟩
    rw [Reader.run_stop continues taken stops,
      Reader.runFrom_stop (s := State.mk p 0 entries) continues taken' (lift_error stops)]
    rfl

end

end Counting

theorem Cursor.scanned_ofTokens {source : String} {tokens : List Placed}
    (scan : Token.scan source = .ok tokens) : (ofTokens tokens).Scanned := by
  cases tokens with
  | nil => exact absurd (Token.genuine_of_scan scan).1 nofun
  | cons t ts => exact scanned_of_scan scan (List.suffix_refl _)

/-- What is read with the counter is what is read, and the counter is right throughout. -/
theorem Counting.run_eq_readTokens (reader : Reader) {room : Nat} (enough : maxNesting < room)
    (kind : DeclarationKind) {source : String} {tokens : List Placed}
    (scan : Token.scan source = .ok tokens) : ∃ entries : List Entry, (∀ e ∈ entries, e.Right) ∧
      run reader room kind tokens = (readTokens reader kind tokens, entries) := by
  have follows : ∃ (entries : List Entry) (last : Progress), (∀ e ∈ entries, e.Right) ∧
      reader.runFrom kind (State.start room tokens) =
        (readTokens reader kind tokens, ⟨last, 0, entries⟩) :=
    runFrom_follows enough kind [] (Cursor.scanned_ofTokens scan) (Cursor.depth_ofTokens tokens)
  obtain ⟨entries, last, right, same⟩ := follows
  exact ⟨entries, right, by rw [run, same]⟩

namespace Declaration

/-- What is declared, with faults or without, has been read from tokens. -/
theorem declared_of_parseReporting {source file : String} {kind : DeclarationKind} {limit : Nat}
    {ds : List Declaration} {errors : List SyntaxError}
    (h : parseReporting source file kind limit = .ok (ds, errors)) :
    ∃ tokens, ds = (readTokens ⟨file, .upTo limit⟩ kind tokens).declarations := by
  rw [parseReporting] at h
  split at h
  · cases h
  · next tokens _ => exact ⟨tokens, (congrArg Prod.fst (Except.ok.inj h)).symm⟩

/-- Whatever is declared fits into the limit, and is of the kind that is read. -/
theorem fits_of_readTokens (reader : Reader) (kind : DeclarationKind) (tokens : List Placed) :
    ∀ d ∈ (readTokens reader kind tokens).declarations, d.Fits maxNesting ∧ d.kind = kind :=
  fun d declared =>
    ⟨reader.forall_mem_run (Reader.ensures_fits kind) _ d declared,
      (reader.forall_mem_run (reader.ensures_declaration kind) _ d declared).1⟩

/-- **The limit on blocks holds on the call stack and in what is read.**  In both modes, and also
behind any number of faults, the counter is the number of open blocks wherever a production is
entered, and never more than the limit; so a call stack with room for one block more never runs
out.  And what is declared, with faults or without, has no more levels of blocks than the limit, no
empty name, and the kind that is asked for. -/
theorem nesting_bounded (source file : String) (kind : DeclarationKind) :
    (∀ tokens, Token.scan source = .ok tokens → ∀ mode room, maxNesting < room →
      ∃ entries : List Counting.Entry, (∀ e ∈ entries, e.Right) ∧
        Counting.run ⟨file, mode⟩ room kind tokens =
          (readTokens ⟨file, mode⟩ kind tokens, entries)) ∧
    (∀ ds, parse source file kind = .ok ds → ∀ d ∈ ds, d.Fits maxNesting ∧ d.kind = kind) ∧
    (∀ limit ds errors, parseReporting source file kind limit = .ok (ds, errors) →
      ∀ d ∈ ds, d.Fits maxNesting ∧ d.kind = kind) := by
  refine ⟨fun tokens scan mode room enough => ?_, fun ds read => ?_, fun limit ds errors read => ?_⟩
  · exact Counting.run_eq_readTokens ⟨file, mode⟩ enough kind scan
  · obtain ⟨tokens, recorded, -, read⟩ := exists_of_parse read
    have fits := fits_of_readTokens ⟨file, .failFast⟩ kind tokens
    rwa [read] at fits
  · obtain ⟨tokens, rfl⟩ := declared_of_parseReporting read
    exact fits_of_readTokens _ kind tokens

end Declaration

end Compliance
