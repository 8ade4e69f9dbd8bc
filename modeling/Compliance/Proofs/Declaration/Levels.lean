import Compliance.Proofs.Declaration.Counted
import Compliance.Proofs.Declaration.Turns

/-!
# Rounds at each level

Blocks stand in blocks, and the members of each are read in rounds; the rounds of blocks
at one level share the tokens of a text among them.  Each round begins behind the one
before at its level, for a block starts with a brace, which pays for the last round in it:
that one may stop the reading and pass no token.  So at each level of blocks there are no
more rounds than tokens, however many blocks there are and however many faults are met.

The rounds are counted where they begin, in a reading that writes down what it enters.

## Main definitions

* `Counting.roundsAt level entries` — how many rounds begin at a level.
* `Counting.Spent n k s t` — at each level as many tokens as rounds are passed, but for `k`.
* `Counting.Round n s t` — one round at the level `n`.
* `Counting.roundsAt_runFrom_le` — there are no more rounds at a level than tokens.
* `Declaration.recovery_moves_on` — reading moves on, round by round and level by level.
-/

namespace Compliance

open Declaration

/-- A member is read in a round of its own. -/
def Production.isMember : Production → Bool
  | .member _ => true
  | _ => false

namespace Counting

variable {α β : Type} {r o n m j k level : Nat} {s t u : State r} {x : Counting r α}
  {entries : List Entry}

/-! ## Rounds and tokens -/

/-- How many rounds begin at a level, where so many blocks are open on the call stack. -/
def roundsAt (level : Nat) (entries : List Entry) : Nat :=
  entries.countP fun e => e.production.isMember && e.opened = level

theorem roundsAt_concat (e : Entry) : roundsAt level (entries ++ [e]) =
    roundsAt level entries + if e.production.isMember && e.opened = level then 1 else 0 := by
  rw [roundsAt, List.countP_append, List.countP_singleton, roundsAt]

/-- What a result leaves off with. -/
def after : EStateM.Result SyntaxFault (State r) α → State r
  | .ok _ t => t
  | .error _ t => t

/-- On the way from one state to another reading has moved forward, with the call stack as it was,
and no round has begun below a level.  At each level no more rounds have begun than tokens have been
passed, or at most `k` more. -/
structure Spent (n k : Nat) (s t : State r) : Prop where
  opened : t.opened = s.opened
  forward : t.progress.cursor.placed <:+ s.progress.cursor.placed
  below : ∀ level < n, roundsAt level t.entries = roundsAt level s.entries
  within : ∀ level, roundsAt level t.entries + t.progress.size ≤
    roundsAt level s.entries + s.progress.size + k

namespace Spent

theorem refl (s : State r) : Spent n k s s :=
  ⟨rfl, List.suffix_rfl, fun _ _ => rfl, fun _ => by omega⟩

theorem trans (h : Spent n j s t) (h' : Spent n k t u) : Spent n (j + k) s u where
  opened := h'.opened.trans h.opened
  forward := h'.forward.trans h.forward
  below level under := (h'.below level under).trans (h.below level under)
  within level := by
    have first := h.within level
    have second := h'.within level
    omega

theorem mono (h : Spent n j s t) (more : j ≤ k) : Spent n k s t where
  opened := h.opened
  forward := h.forward
  below := h.below
  within level := (h.within level).trans (by omega)

/-- No round begins where reading only moves forward. -/
theorem of_forward (opened : t.opened = s.opened) (same : t.entries = s.entries)
    (forward : t.progress.cursor.placed <:+ s.progress.cursor.placed) : Spent n 0 s t where
  opened := opened
  forward := forward
  below level _ := by rw [same]
  within level := by
    have fewer : t.progress.size ≤ s.progress.size := Cursor.size_le_of_suffix forward
    rw [same]
    omega

end Spent

/-- One round at a level, and at the levels above it no more rounds than tokens. -/
structure Round (n : Nat) (s t : State r) : Prop where
  opened : t.opened = s.opened
  forward : t.progress.cursor.placed <:+ s.progress.cursor.placed
  below : ∀ level < n, roundsAt level t.entries = roundsAt level s.entries
  one : roundsAt n t.entries ≤ roundsAt n s.entries + 1
  above : ∀ level, n < level →
    roundsAt level t.entries + t.progress.size ≤ roundsAt level s.entries + s.progress.size

namespace Round

theorem further (h : Round n s t) (h' : Spent (n + 1) 0 t u) : Round n s u where
  opened := h'.opened.trans h.opened
  forward := h'.forward.trans h.forward
  below level under := (h'.below level (by omega)).trans (h.below level under)
  one := (h'.below n (Nat.lt_succ_self n)).le.trans h.one
  above level higher := (h'.within level).trans (h.above level higher)

/-- A round that passes a token pays for itself. -/
theorem paid (h : Round n s t) (less : t.progress.size < s.progress.size) : Spent n 0 s t where
  opened := h.opened
  forward := h.forward
  below := h.below
  within level := by
    rcases Nat.lt_trichotomy level n with under | rfl | higher
    · rw [h.below level under]
      omega
    · have one := h.one
      omega
    · exact h.above level higher

/-- One that passes none is owed. -/
theorem owed (h : Round n s t) : Spent n 1 s t where
  opened := h.opened
  forward := h.forward
  below := h.below
  within level := by
    have fewer : t.progress.size ≤ s.progress.size := Cursor.size_le_of_suffix h.forward
    rcases Nat.lt_trichotomy level n with under | rfl | higher
    · rw [h.below level under]
      omega
    · have one := h.one
      omega
    · have above := h.above level higher
      omega

end Round

/-! ## Parts in sequence -/

/-- With so many blocks open on the call stack, reading whose rounds are all at some level or above,
with no more of them than tokens, or at most `k` more. -/
def Spends (opened n k : Nat) (x : Counting r α) : Prop :=
  ∀ s : State r, s.opened = opened → s.progress.cursor.Ended → Spent n k s (after (x s))

/-- Reading that is a round at a level. -/
def Begins (n : Nat) (x : Counting r α) : Prop :=
  ∀ s : State r, s.opened = n → s.progress.cursor.Ended → Round n s (after (x s))

theorem after_bind (x : Counting r α) (l : α → Counting r β) (s : State r) :
    (∃ a, x s = .ok a (after (x s)) ∧ (x >>= l) s = l a (after (x s))) ∨
      after ((x >>= l) s) = after (x s) := by
  change (∃ a, _ ∧ EStateM.bind x l s = _) ∨ after (EStateM.bind x l s) = _
  rw [EStateM.bind]
  cases x s with
  | ok a t => exact .inl ⟨a, rfl, rfl⟩
  | error fault t => exact .inr rfl

namespace Spends

theorem pure (a : α) : Spends (r := r) o n k (Pure.pure a) := fun s _ _ => .refl s

theorem andThen {l : α → Counting r β} (h : Spends o n j x) (hl : ∀ a, Spends o n k (l a)) :
    Spends o n (j + k) (x >>= l) := by
  intro s opened ended
  have first := h s opened ended
  rcases after_bind x l s with ⟨a, -, result⟩ | stops
  · rw [result]
    exact first.trans (hl a _ (first.opened.trans opened) (ended.of_suffix first.forward))
  · rw [stops]
    exact first.mono (Nat.le_add_right j k)

theorem bind {l : α → Counting r β} (h : Spends o n 0 x) (hl : ∀ a, Spends o n k (l a)) :
    Spends o n k (x >>= l) := by
  have both : Spends o n (0 + k) (x >>= l) := h.andThen hl
  rwa [Nat.zero_add] at both

/-- What ends with reading that needs no more. -/
theorem closing {l : α → Counting r β} (h : Spends o n k x) (hl : ∀ a, Spends o n 0 (l a)) :
    Spends o n k (x >>= l) := h.andThen hl

theorem map (h : Spends o n k x) (g : α → β) : Spends o n k (g <$> x) := by
  have bound : Spends o n k (x >>= fun a => Pure.pure (g a)) := h.closing fun a => .pure (g a)
  rwa [bind_pure_comp] at bound

/-- Something may come first where a test says so. -/
theorem first {test : Prop} [Decidable test] {y : Counting r PUnit}
    {l : PUnit → Counting r α} (h : Spends o n 0 y) (hl : Spends o n k (l ⟨⟩)) :
    Spends o n k (if test then y >>= l else l ⟨⟩) := by
  split
  · exact h.bind fun _ => hl
  · exact hl

theorem lift {f : Recovering α} (h : f.Forward) : Spends (r := r) o n 0 (lift f) := by
  intro s _ _
  have forward := h s.progress
  rw [Counting.lift]
  cases result : f s.progress <;> rw [result] at forward <;> exact .of_forward rfl rfl forward

theorem take {P : Parser α} (h : P.Forward) : Spends (r := r) o n 0 (Parsing.take P) :=
  lift (.plain h)

theorem entered {production : Production} (silent : production.isMember = false)
    (h : Spends o n k x) : Spends o n k (Parsing.enter production x) := by
  have same (s : State r) (level : Nat) :
      roundsAt level (after (note production s)).entries = roundsAt level s.entries :=
    (roundsAt_concat ⟨production, s.progress.cursor.depth, s.opened⟩).trans (by simp [silent])
  rw [enter_state]
  refine bind (fun s _ _ => ⟨rfl, List.suffix_rfl, fun level _ => same s level, fun level => ?_⟩)
    fun _ => h
  rw [same s level]
  exact Nat.le_refl _

/-- What is read in a block is read with one block more on the call stack. -/
theorem inside (h : Spends (o + 1) n k x) : Spends o n k (Parsing.inside x) := by
  intro s opened ended
  have inner := h { s with opened := s.opened + 1 } (congrArg (· + 1) opened) ended
  rw [inside_state, Counting.inside]
  cases result : x { s with opened := s.opened + 1 } <;> rw [result] at inner <;>
    exact ⟨rfl, inner.forward, inner.below, inner.within⟩

end Spends

theorem spends_openBlock : Spends (r := r) o n 0 openBlock := by
  refine (Spends.take Parser.forward_get).bind fun c => ?_
  split
  · refine (Spends.take (Parser.forward_refuse _)).bind fun _ => ?_
    exact Spends.take Parser.forward_composed.openBlock
  · exact Spends.take Parser.forward_composed.openBlock

/-- An opening brace that is not refused has been passed. -/
theorem openBlock_passes {a : Unit} (ended : s.progress.cursor.Ended)
    (result : openBlock s = .ok a t) :
    t.entries = s.entries ∧ t.progress.cursor.Behind s.progress.cursor := by
  rw [openBlock_run s] at result
  split at result
  · cases result
  · rw [read, lift] at result
    cases opens : Parser.openBlock.plain s.progress with
    | error fault p =>
      rw [opens] at result
      cases result
    | ok u p =>
      rw [opens] at result
      cases result
      have brace : (Parser.expect .braceOpen).Passes s.progress.cursor :=
        Parser.passes_expect ended (by simp)
      have passes : Parser.openBlock.Passes s.progress.cursor :=
        brace.bind fun _ => Parser.forward_composed.deepen (· + 1)
      exact ⟨rfl, Recovering.Passes.plain passes opens⟩

/-- **The brace that opens a block pays for one more round in it.** -/
theorem Spends.opened {l : Unit → Counting r α} (h : ∀ a, Spends o n 1 (l a)) :
    Spends o n 0 (Parsing.openBlock >>= l) := by
  intro s stack ended
  rw [openBlock_state]
  have first : Spent n 0 s (after (openBlock s)) := spends_openBlock s stack ended
  rcases after_bind openBlock l s with ⟨a, opens, result⟩ | stops
  · obtain ⟨same, behind⟩ := openBlock_passes ended opens
    have rest : Spent n 1 (after (openBlock s)) (after (l a (after (openBlock s)))) :=
      h a _ (first.opened.trans stack) (ended.of_suffix first.forward)
    have less := behind.size_lt
    rw [result]
    refine ⟨rest.opened.trans first.opened, rest.forward.trans first.forward,
      (first.trans rest).below, fun level => ?_⟩
    have within := rest.within level
    rw [same] at within
    simp only [Progress.size] at within ⊢
    omega
  · rwa [stops]

/-! ## Rounds -/

/-- A member is a round, whatever it is, if the rounds in it are at levels above. -/
theorem Spends.begins (h : Spends n (n + 1) 0 x) (kind : DeclarationKind) :
    Begins n (Parsing.enter (.member kind) x) := by
  rintro s rfl ended
  let s' : State r :=
    { s with entries := s.entries ++ [⟨.member kind, s.progress.cursor.depth, s.opened⟩] }
  have begun (level : Nat) : roundsAt level s'.entries =
      roundsAt level s.entries + if s.opened = level then 1 else 0 :=
    (roundsAt_concat _).trans (by simp [Production.isMember])
  have rest : Spent (s.opened + 1) 0 s' (after (x s')) := h s' rfl ended
  refine ⟨rest.opened, rest.forward, fun level under => ?_, ?_, fun level higher => ?_⟩
  · exact (rest.below level (by omega)).trans (by rw [begun, if_neg (by omega), Nat.add_zero])
  · exact ((rest.below s.opened (by omega)).trans (by rw [begun, if_pos rfl])).le
  · have within := rest.within level
    rw [begun, if_neg (by omega)] at within
    exact within

/-- A repetition owes no more than its last step does, if any step that passes a token pays for
itself. -/
theorem Spends.foldWhile {goOn : Cursor → Bool} {step : β → Counting r β}
    (h : ∀ b, Spends o n k (step b))
    (paid : ∀ b s, s.opened = o → s.progress.cursor.Ended →
      (after (step b s)).progress.size < s.progress.size → Spent n 0 s (after (step b s)))
    (b : β) : Spends o n k (Parser.foldWhile goOn step b) := by
  intro s opened ended
  induction b, s using Parser.foldWhile_induction goOn step with
  | finish b s ends =>
    rw [Parser.foldWhile_end ends]
    exact .refl s
  | more b s next t continues result less ih =>
    have first := h b s opened ended
    have paid := paid b s opened ended
    rw [result] at first paid
    have rest := ih (first.opened.trans opened) (ended.of_suffix first.forward)
    rw [Parser.foldWhile_cons continues result less, ← Nat.zero_add k]
    exact (paid less).trans rest
  | last b s next t continues result less =>
    rw [Parser.foldWhile_last continues result less, ← result]
    exact h b s opened ended
  | stop b s fault t continues result =>
    rw [Parser.foldWhile_stop continues result, ← result]
    exact h b s opened ended

theorem Spends.repeatWhile {goOn : Cursor → Bool} (h : Spends o n 0 x) :
    Spends o n 0 (Parser.repeatWhile goOn x) := by
  have step (values : List α) : Spends o n 0 (do return (← x) :: values) := h.bind fun _ => .pure _
  exact (Spends.foldWhile step (fun values s opened ended _ => step values s opened ended) []).bind
    fun _ => .pure _

theorem Begins.foldWhile {goOn : Cursor → Bool} {step : β → Counting r β}
    (h : ∀ b, Begins n (step b)) (b : β) : Spends n n 1 (Parser.foldWhile goOn step b) :=
  Spends.foldWhile (fun b s opened ended => (h b s opened ended).owed)
    (fun b s opened ended less => (h b s opened ended).paid less) b

theorem spends_recover (mode : Mode) (keywords : List String) (base checkpoint : Nat)
    (fault : SyntaxFault) :
    Spends (r := r) o n 0 (Resuming.recover mode keywords base checkpoint fault) :=
  .lift (Recovering.forward_recover _ _)

/-- What is skipped behind its fault belongs to a round. -/
theorem Begins.recovering {mode : Mode} {keywords : List String} {base : Nat} (h : Begins n x)
    {s t : State r} {fault : SyntaxFault} {y : EStateM.Result SyntaxFault (State r) Unit}
    (opened : s.opened = n) (ended : s.progress.cursor.Ended) (result : x s = .error fault t)
    (skipped : Resuming.recover mode keywords base s.progress.size fault t = y) :
    Round n s (after y) := by
  have round := h s opened ended
  rw [result] at round
  rw [← skipped]
  exact round.further (spends_recover mode keywords base s.progress.size fault t
    (round.opened.trans opened) (ended.of_suffix round.forward))

/-- In the members of a block each round pays for itself with what is skipped behind its fault, but
for the last. -/
theorem Begins.membersAt {mode : Mode} {keywords : List String} {base : Nat} (h : Begins n x) :
    Spends n n 1 (Recovering.membersAt mode keywords base x) := by
  intro s opened ended
  -- A round that another follows has passed a token, so it is paid; the last one may be owed.
  induction s using Recovering.round_induction Recovering.atBlockEnd_or mode keywords base x with
  | finish s ends =>
    rw [Recovering.membersAt_end ends]
    exact .refl s
  | more s a t continues result less ih =>
    have round := h s opened ended
    rw [result] at round
    have rest := ih (round.opened.trans opened) (ended.of_suffix round.forward)
    have whole := (round.paid less).trans rest
    rw [Recovering.membersAt_cons continues result less, EStateM.map]
    cases behind : Recovering.membersAt mode keywords base x t <;> rw [behind] at whole <;>
      exact whole
  | last s a t continues result less =>
    have round := h s opened ended
    rw [result] at round
    rw [Recovering.membersAt_last continues result less]
    exact round.owed
  | past s fault t u continues result skipped less ih =>
    have whole := h.recovering opened ended result skipped
    have rest := ih (whole.opened.trans opened) (ended.of_suffix whole.forward)
    rw [Recovering.membersAt_recover continues result skipped less]
    exact (whole.paid less).trans rest
  | rest s fault t u continues result skipped less =>
    rw [Recovering.membersAt_recover_last continues result skipped less]
    exact (h.recovering opened ended result skipped).owed
  | stop s fault t stop u continues result skipped =>
    rw [Recovering.membersAt_stop continues result skipped]
    exact (h.recovering opened ended result skipped).owed

theorem Begins.members {mode : Mode} {keywords : List String} (h : Begins n x) :
    Spends n n 1 (Recovering.members mode keywords x) :=
  fun s opened ended => h.membersAt s opened ended

/-! ## Statements -/

theorem spends_token : Spends (r := r) o n 0 (Parsing.take Parser.token) :=
  .take Parser.forward_token

theorem spends_advance : Spends (r := r) o n 0 (Parsing.take Parser.advance) :=
  .take Parser.forward_advance

theorem spends_unexpected (phrase : String) :
    Spends (r := r) o n 0 (Parsing.take (Parser.unexpected phrase : Parser α)) :=
  .take (Parser.forward_unexpected phrase)

theorem spends_refuse (cause : SyntaxCause) :
    Spends (r := r) o n 0 (Parsing.take (Parser.refuse cause : Parser α)) :=
  .take (Parser.forward_refuse cause)

theorem spends_closeBlock : Spends (r := r) o n 0 (Parsing.take Parser.closeBlock) :=
  .take Parser.forward_composed.closeBlock

theorem spends_refuseBlock :
    Spends (r := r) o n 0 (Parsing.take (Parser.refuseBlock : Parser α)) :=
  .take Parser.forward_composed.refuseBlock

theorem spends_statementTail {block : Counting r (List Statement)} (h : Spends o n 0 block)
    (name : String) : Spends o n 0 (Parser.statementTail block name) := by
  have predicate : Spends (r := r) o n 0 (Parsing.take Parser.predicate) :=
    .take (Parser.forward_predicate Parser.forward_composed.operation)
  refine spends_token.bind fun t => ?_
  split
  · refine spends_advance.bind fun _ => ?_
    refine (Spends.take Parser.forward_composed.string).bind fun key => ?_
    refine (Spends.take (Parser.forward_composed.expect _)).bind fun _ => ?_
    exact predicate.bind fun _ => .pure _
  · exact h.bind fun _ => .pure _
  · exact predicate.bind fun _ => .pure _

theorem spends_statementWith {block : Counting r (List Statement)} (h : Spends o n 0 block) :
    Spends o n 0 (Parser.statementWith block) := by
  have name (phrase : String) : Spends (r := r) o n 0 (Parsing.take (Parser.nameOf phrase)) :=
    .take (Parser.forward_composed.nameOf phrase)
  refine Spends.entered rfl (spends_token.bind fun t => ?_)
  split
  · refine spends_advance.bind fun _ => (name _).bind fun name => spends_token.bind fun t => ?_
    split
    · exact h.bind fun _ => .pure _
    · exact .pure _
  · exact (name _).bind fun name => spends_statementTail h name

theorem spends_statements {statement : Counting r Statement} (h : Spends o n 0 statement) :
    Spends o n 0 (Parser.statements statement) := by
  have next : Spends o n 0 (Parser.nextStatement statement) :=
    spends_token.bind fun _ => .first spends_advance h
  refine (Spends.take Parser.forward_get).bind fun c => ?_
  split
  · exact .pure _
  · exact h.bind fun first => next.repeatWhile.bind fun more => .pure _

theorem spends_block (levels : Nat) : Spends (r := r) o n 0 (Parser.block levels) := by
  induction levels generalizing o with
  | zero => exact .entered rfl spends_refuseBlock
  | succ levels ih =>
    refine .entered rfl (spends_openBlock.bind fun _ => ?_)
    refine (spends_statements (spends_statementWith ih)).inside.bind fun children => ?_
    exact spends_closeBlock.bind fun _ => .pure _

/-! ## Declarations -/

section

variable {reader : Reader} {file : String}

theorem begins_rulePart (name : String) (levels : Nat) (parts : Parser.RuleParts) :
    Begins (r := r) n (Parser.rulePart file name levels parts) := by
  refine Spends.begins (spends_token.bind fun t => ?_) .rule
  split
  · exact (Spends.take Parser.forward_composed.setting).bind fun _ => .pure _
  · exact Spends.first (spends_refuse _)
      (spends_advance.bind fun _ => (spends_block levels).bind fun _ => .pure _)
  · exact Spends.first (spends_refuse _)
      (spends_advance.bind fun _ => (spends_block levels).bind fun _ => .pure _)
  · exact spends_unexpected _

theorem spends_ruleBody (name : String) (levels : Nat) :
    Spends (r := r) n (n + 1) 0 (Parser.ruleBody file name levels) := by
  have parts : Spends (r := r) (n + 1) (n + 1) 1
      (Parser.foldWhile (fun c => !c.atBlockEnd) (Parser.rulePart file name levels) {}) :=
    Begins.foldWhile (begins_rulePart name levels) {}
  refine Spends.opened fun _ => parts.inside.closing fun parts => ?_
  cases parts.assertions with
  | none => exact spends_refuse _
  | some assertions => exact spends_closeBlock.bind fun _ => .pure _

theorem spends_rule (levels : Nat) :
    Spends (r := r) n (n + 1) 0 (Parser.rule file levels) := by
  refine Spends.entered rfl ?_
  refine (Spends.take (Parser.forward_composed.header .rule)).bind fun (name, origin) => ?_
  refine (Spends.take (Parser.forward_composed.expect _)).bind fun _ => ?_
  refine (Spends.take (Parser.forward_composed.reference _)).bind fun target => ?_
  cases levels with
  | zero => exact spends_refuseBlock.bind fun _ => .pure _
  | succ below => exact (spends_ruleBody name below).bind fun _ => .pure _

theorem spends_settingMember : Spends (r := r) o n 0 reader.settingMember :=
  (Spends.take Parser.forward_composed.setting).map _

theorem spends_inclusionMember (kinds : List DeclarationKind) :
    Spends (r := r) o n 0 (reader.inclusionMember kinds) :=
  (Spends.take (Parser.forward_composed.inclusion kinds)).map _

theorem begins_groupMember (levels : Nat) :
    Begins (r := r) n (reader.groupMember levels) := by
  refine Spends.begins (spends_token.bind fun t => ?_) .group
  split
  · exact spends_settingMember
  · exact spends_inclusionMember _
  · exact (spends_rule levels).map _
  · exact spends_unexpected _

theorem spends_group (levels : Nat) : Spends (r := r) n (n + 1) 0 (reader.group levels) := by
  refine Spends.entered rfl ?_
  refine (Spends.take (Parser.forward_composed.header .group)).bind fun (name, origin) => ?_
  cases levels with
  | zero => exact spends_refuseBlock
  | succ below =>
    refine Spends.opened fun _ => (begins_groupMember below).members.inside.closing fun _ => ?_
    exact spends_closeBlock.bind fun _ => .pure _

theorem begins_moduleMember {inner : Counting r Module} (h : Spends n (n + 1) 0 inner)
    (levels : Nat) : Begins n (reader.moduleMember levels inner) := by
  refine Spends.begins (spends_token.bind fun t => ?_) .module
  split
  · exact spends_settingMember
  · exact spends_inclusionMember _
  · exact h.map _
  · exact (spends_group levels).map _
  · exact (spends_rule levels).map _
  · exact spends_unexpected _

/-- **However deep modules are nested**, all rounds in one are at the levels above it, and at each
there are no more of them than tokens. -/
theorem spends_module (levels : Nat) :
    Spends (r := r) n (n + 1) 0 (reader.module levels) := by
  induction levels generalizing n with
  | zero =>
    refine Spends.entered rfl ?_
    exact (Spends.take (Parser.forward_composed.header .module)).bind fun _ => spends_refuseBlock
  | succ below ih =>
    refine Spends.entered rfl ?_
    refine (Spends.take (Parser.forward_composed.header .module)).bind fun (name, origin) => ?_
    have member : Begins (n + 1) (reader.moduleMember below (reader.module below)) :=
      begins_moduleMember ih below
    refine Spends.opened fun _ => member.members.inside.closing fun members => ?_
    exact spends_closeBlock.bind fun _ => .pure _

theorem begins_planMember (levels : Nat) : Begins (r := r) n (reader.planMember levels) := by
  refine Spends.begins (spends_token.bind fun t => ?_) .plan
  split
  · exact spends_settingMember
  · exact spends_inclusionMember _
  · exact (spends_module levels).map _
  · exact spends_unexpected _

theorem spends_plan (levels : Nat) : Spends (r := r) n (n + 1) 0 (reader.plan levels) := by
  refine Spends.entered rfl ?_
  refine (Spends.take (Parser.forward_composed.header .plan)).bind fun (name, origin) => ?_
  cases levels with
  | zero => exact spends_refuseBlock
  | succ below =>
    refine Spends.opened fun _ => (begins_planMember below).members.inside.closing fun _ => ?_
    exact spends_closeBlock.bind fun _ => .pure _

/-! ## Source texts -/

theorem spends_declarationOf (kind : DeclarationKind) :
    Spends (r := r) 0 1 0 (reader.declarationOf kind) := by
  cases kind with
  | plan => exact (spends_plan _).map _
  | module => exact (spends_module _).map _
  | group => exact (spends_group _).map _
  | rule => exact (spends_rule _).map _

theorem spends_topLevel (kind : DeclarationKind) :
    Spends (r := r) 0 1 0 (reader.topLevel kind) := by
  refine spends_token.bind fun t => ?_
  split
  · exact Spends.take Parser.forward_strayBrace
  · refine Spends.entered rfl (spends_token.bind fun t => ?_)
    split
    · exact spends_unexpected _
    · exact Spends.first (spends_refuse _) (spends_declarationOf kind)

end

/-- **There are no more rounds at a level than tokens**, over all blocks at that level and however
many faults are met. -/
theorem roundsAt_runFrom_le (reader : Reader) (kind : DeclarationKind) (opened : s.opened = 0)
    (ended : s.progress.cursor.Ended) (level : Nat) :
    roundsAt level (reader.runFrom kind s).2.entries ≤
      roundsAt level s.entries + s.progress.size := by
  have top {s : State r} (opened : s.opened = 0) (ended : s.progress.cursor.Ended) :
      Spent 1 0 s (after (reader.topLevel kind s)) := spends_topLevel kind s opened ended
  have recovering {s t : State r} {fault : SyntaxFault}
      {y : EStateM.Result SyntaxFault (State r) Unit} (opened : s.opened = 0)
      (ended : s.progress.cursor.Ended) (result : reader.topLevel kind s = .error fault t)
      (skipped : Resuming.recover reader.mode Reader.topKeywords 0 s.progress.size fault t = y) :
      Spent 1 0 s (after y) := by
    have spent := top opened ended
    rw [result] at spent
    rw [← skipped]
    exact spent.trans (spends_recover reader.mode Reader.topKeywords 0 s.progress.size fault t
      (spent.opened.trans opened) (ended.of_suffix spent.forward))
  induction s using Recovering.round_induction Recovering.eof_or reader.mode Reader.topKeywords 0
    (reader.topLevel kind : Counting r Declaration) with
  | finish s ends =>
    rw [Reader.runFrom_eof ends]
    exact Nat.le_add_right _ _
  | more s found t continues result less ih =>
    have spent := top opened ended
    rw [result] at spent
    rw [Reader.runFrom_cons continues result less]
    exact (ih (spent.opened.trans opened) (ended.of_suffix spent.forward)).trans
      (spent.within level)
  | last s found t continues result less =>
    have spent := top opened ended
    rw [result] at spent
    rw [Reader.runFrom_last continues result less]
    exact (Nat.le_add_right _ _).trans (spent.within level)
  | past s fault t u continues result skipped less ih =>
    have whole : Spent 1 0 s u := recovering opened ended result skipped
    rw [Reader.runFrom_recover continues result skipped less]
    exact (ih (whole.opened.trans opened) (ended.of_suffix whole.forward)).trans
      (whole.within level)
  | rest s fault t u continues result skipped less =>
    have whole : Spent 1 0 s u := recovering opened ended result skipped
    rw [Reader.runFrom_recover_last continues result skipped less]
    exact (Nat.le_add_right _ _).trans (whole.within level)
  | stop s fault t stop u continues result skipped =>
    have whole : Spent 1 0 s u := recovering opened ended result skipped
    rw [Reader.runFrom_stop continues result skipped]
    exact (Nat.le_add_right _ _).trans (whole.within level)

end Counting

/-! ## From the start of a text -/

section

variable (tokens : List Placed) (position : Position)

/-- Reading starts where the tokens end with the end of a text, if that stands behind them. -/
theorem Cursor.ended_ofTokens : (ofTokens (tokens ++ [⟨.eof, position⟩])).Ended := by
  have same : (ofTokens (tokens ++ [⟨.eof, position⟩])).tokens =
      tokens.map Placed.token ++ [.eof] := by
    cases tokens with
    | nil => rfl
    | cons t ts => simp [ofTokens, Cursor.tokens, token]
  rw [Ended, same, List.getLast?_concat]

theorem Cursor.size_ofTokens : (ofTokens (tokens ++ [⟨.eof, position⟩])).size = tokens.length := by
  cases tokens with
  | nil => rfl
  | cons t ts => simp [ofTokens, size]

namespace Counting

theorem roundsAt_le_length (reader : Reader) (r : Nat) (kind : DeclarationKind) (level : Nat) :
    roundsAt level (run reader r kind (tokens ++ [⟨.eof, position⟩])).2 ≤ tokens.length := by
  let start : State r := .start r (tokens ++ [⟨.eof, position⟩])
  have few : roundsAt level (reader.runFrom kind start).2.entries ≤ 0 + start.progress.size :=
    roundsAt_runFrom_le reader kind rfl (Cursor.ended_ofTokens tokens position) level
  have size : start.progress.size = tokens.length := Cursor.size_ofTokens tokens position
  rwa [Nat.zero_add, size] at few

end Counting

end

namespace Declaration

open Recovering Reader Counting

/-- **Reading moves on behind every fault.**  Where faults are recorded, up to whatever limit:
skipping from where a member starts passes that token, unless it is the end of the text or the brace
that closes the block.  Each round of the members of a block and of the declarations of a text that
is not the last passes a token; they come to an end by themselves, after no more of them than there
are tokens, with what is read.  What is repeated within a parser passes a token each time as well.
And over a whole text no more rounds begin at any level of blocks than there are tokens, with
whatever room on the call stack; with room for the limit on blocks this is the reading itself. -/
theorem recovery_moves_on (file : String) (limit : Nat) :
    let reader : Reader := ⟨file, .reporting limit⟩
    (∀ (c : Cursor) keywords base, c.Ended → ((c.skip keywords base c.size).Behind c ↔
      c.token ≠ .eof ∧ (c.token = .braceClose → base < c.depth))) ∧
    (∀ levels base,
      MembersMoveOn reader.mode groupKeywords base (reader.groupMember levels) ∧
      MembersMoveOn reader.mode moduleKeywords base
        (reader.moduleMember levels (reader.module levels)) ∧
      MembersMoveOn reader.mode planKeywords base (reader.planMember levels)) ∧
    (∀ kind, reader.TextMovesOn kind) ∧
    (∀ c : Cursor, c.Ended →
      (c.token = .colon → ∀ phrase, (Parser.segment phrase).Passes c) ∧
      (Parser.moreFollows c = true →
        (do Parser.advance; Parser.literal : Parser Value).Passes c) ∧
      ∀ levels,
        Parser.Passes (Parser.nextStatement (Parser.statementWith (Parser.block levels))) c ∧
        ∀ name parts, Parser.Passes (Parser.rulePart file name levels parts) c) ∧
    ∀ (kind : DeclarationKind) (room : Nat),
      (∀ (tokens : List Placed) position level,
        roundsAt level (Counting.run reader room kind (tokens ++ [⟨.eof, position⟩])).2 ≤
          tokens.length) ∧
      (maxNesting < room → ∀ source tokens, Token.scan source = .ok tokens →
        (Counting.run reader room kind tokens).1 = readTokens reader kind tokens) := by
  intro reader
  have forward := forward_trails limit
  refine ⟨fun c keywords base ended => Cursor.skip_behind_iff ended keywords base,
    fun levels base => ⟨?_, ?_, ?_⟩, textMovesOn file limit, fun c ended => ⟨?_, ?_, ?_⟩,
    fun kind room => ⟨fun tokens position => roundsAt_le_length tokens position reader room kind,
      fun enough source tokens scan => ?_⟩⟩
  · exact membersMoveOn (forward.groupMember levels).forward fun _ => passes_groupMember levels
  · exact membersMoveOn (forward.moduleMember levels (forward.module levels)).forward
      fun _ => passes_moduleMember levels
  · exact membersMoveOn (forward.planMember levels).forward fun _ => passes_planMember levels
  · exact fun colon phrase => Parser.passes_segment phrase ended colon
  · exact Parser.passes_nextLiteral ended
  · exact fun levels => ⟨Parser.passes_nextStatement levels ended,
      fun name parts => Parser.passes_rulePart name levels parts ended⟩
  · obtain ⟨entries, -, same⟩ := run_eq_readTokens reader enough kind scan
    rw [same]

end Declaration

end Compliance
