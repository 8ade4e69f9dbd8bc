import Compliance.Proofs.Declaration.Broken
import Compliance.Proofs.Declaration.Noted

/-!
# Going on behind a broken rule

Where faults are recorded, a rule that is broken within its block costs that rule and one
place among the faults, and nothing else: reading goes on right behind the block, and from
there it is reading a text in which the rule is not written.

## Main definitions

* `Recovering.Boundary` — the places in a block where its next member is read.
* `Reader.Boundary` — the places in a text where its next declaration is read.
* `Recovering.LosesRule` — what a broken rule costs in a block.
* `Reader.loses_broken_rule` — all that it costs, in any block and in a text of rules.
-/

namespace Compliance

namespace Recovering

variable {α β : Type} {mode : Mode} {keywords : List String} {base : Nat}

/-! ## Open blocks -/

/-- What reads a part of a text leaves as many blocks open as there were before, if it reads
it to its end, and never goes back. -/
structure Even (f : Recovering α) : Prop where
  ok : ∀ {p q : Progress} {a : α}, p.cursor.Scanned → f p = .ok a q →
    q.cursor.placed <:+ p.cursor.placed ∧ q.cursor.depth = p.cursor.depth
  error : ∀ {p q : Progress} {fault : SyntaxFault}, p.cursor.Scanned → f p = .error fault q →
    q.cursor.placed <:+ p.cursor.placed

namespace Even

variable {f : Recovering α}

theorem plain {parser : Parser α} (h : parser.Level) : Even parser.plain where
  ok {p q a} hp result := by
    obtain ⟨c, read, rfl⟩ := Parser.within_eq_ok.mp result
    have climbs := (h hp).ok read
    exact ⟨climbs.suffix, climbs.depth⟩
  error {p q fault} hp result := by
    obtain ⟨c, read, rfl⟩ := Parser.within_eq_error.mp result
    obtain ⟨n, climbs⟩ := (h hp).error read
    exact climbs.suffix

theorem pure (a : α) : Even (Pure.pure a : Recovering α) where
  ok _ result := by
    cases result
    exact ⟨List.suffix_rfl, rfl⟩
  error _ result := by cases result

theorem bind {k : α → Recovering β} (h : Even f) (hk : ∀ a, Even (k a)) : Even (f >>= k) where
  ok {p q b} hp result := by
    cases first : f p with
    | ok a r =>
      obtain ⟨suffix, depth⟩ := h.ok hp first
      rw [bind_ok first] at result
      obtain ⟨suffix', depth'⟩ := (hk a).ok (hp.of_suffix suffix) result
      exact ⟨suffix'.trans suffix, depth'.trans depth⟩
    | error fault r =>
      rw [bind_error first] at result
      cases result
  error {p q fault} hp result := by
    cases first : f p with
    | ok a r =>
      obtain ⟨suffix, -⟩ := h.ok hp first
      rw [bind_ok first] at result
      exact ((hk a).error (hp.of_suffix suffix) result).trans suffix
    | error fault' r =>
      rw [bind_error first] at result
      cases result
      exact h.error hp first

theorem map (h : Even f) (k : α → β) : Even (k <$> f) := by
  have bound := h.bind fun a => pure (k a)
  rwa [bind_pure_comp] at bound

/-- What is read between braces may leave them as they are. -/
theorem braced (h : Even f) {i : α → β} : Even (Parser.braced i f) where
  ok {p q b} hp result := by
    obtain ⟨opens, a, r, read, closes, rfl, rfl⟩ := Parser.braced_eq_ok.mp result
    obtain ⟨suffix, depth⟩ := h.ok (hp.advance.withDepth _) read
    refine ⟨Cursor.advance_placed_suffix.trans (suffix.trans Cursor.advance_placed_suffix), ?_⟩
    have inside : r.cursor.depth = p.cursor.depth + 1 := depth
    exact (congrArg (· - 1) inside).trans (Nat.add_sub_cancel _ _)
  error {p q fault} hp result := by
    rw [Parser.braced] at result
    cases opened : (Parser.openBlock.within : Recovering Unit) p with
    | error fault' r =>
      rw [bind_error opened] at result
      cases result
      obtain ⟨c, stops, rfl⟩ := Parser.within_eq_error.mp opened
      obtain rfl := Parser.openBlock_stops stops
      exact List.suffix_rfl
    | ok u r =>
      obtain ⟨c, opens, moved⟩ := Parser.within_eq_ok.mp opened
      obtain ⟨-, rfl⟩ := Parser.openBlock_eq_ok.mp opens
      obtain rfl : r = ⟨p.cursor.inside, p.recorded⟩ := moved
      rw [bind_ok opened] at result
      have hp' : p.cursor.inside.Scanned := hp.advance.withDepth _
      cases read : f ⟨p.cursor.inside, p.recorded⟩ with
      | error fault' r =>
        rw [bind_error read] at result
        cases result
        exact (h.error hp' read).trans Cursor.advance_placed_suffix
      | ok a r =>
        obtain ⟨suffix, -⟩ := h.ok hp' read
        rw [bind_ok read] at result
        cases closed : (Parser.closeBlock.within : Recovering Unit) r with
        | ok u' r' =>
          rw [bind_ok closed] at result
          cases result
        | error fault' r' =>
          rw [bind_error closed] at result
          cases result
          obtain ⟨c, stops, rfl⟩ := Parser.within_eq_error.mp closed
          obtain rfl := Parser.closeBlock_stops stops
          exact suffix.trans Cursor.advance_placed_suffix

end Even

/-! ## Members -/

/-- Skipping never goes back, and counts as many open blocks as the members have around them. -/
theorem skipFrom_even (keywords : List String) (base checkpoint depth : Nat) (current : Placed)
    (ahead : List Placed) :
    (skipFrom keywords base checkpoint depth current ahead).placed <:+ current :: ahead ∧
      (skipFrom keywords base checkpoint depth current ahead).depth = base := by
  fun_induction skipFrom keywords base checkpoint depth current ahead with
  | case1 | case2 | case4 | case7 => exact ⟨List.suffix_rfl, rfl⟩
  | case5 => exact ⟨List.suffix_cons .., rfl⟩
  | case3 | case6 | case8 | case9 =>
    rename_i ih
    exact ⟨ih.1.trans (List.suffix_cons ..), ih.2⟩

theorem recover_even {checkpoint : Nat} {fault : SyntaxFault} {p q : Progress}
    (result : recover mode keywords base checkpoint fault p = .ok () q) :
    q.cursor.placed <:+ p.cursor.placed ∧ q.cursor.depth = base := by
  cases mode with
  | failFast => cases result
  | reporting limit =>
    simp only [recover] at result
    split at result
    · cases result
    · split at result
      · cases result
      · cases result
        exact skipFrom_even keywords base checkpoint _ _ _

theorem recover_stops {checkpoint : Nat} {fault stop : SyntaxFault} {p q : Progress}
    (result : recover mode keywords base checkpoint fault p = .error stop q) :
    q.cursor = p.cursor := by
  cases mode with
  | failFast =>
    cases result
    rfl
  | reporting limit =>
    simp only [recover] at result
    split at result
    · cases result
      rfl
    · split at result <;> cases result
      rfl

variable {f : Recovering α}

/-- The members of a block leave it as open as they found it. -/
theorem even_membersAt (h : Even f) {p : Progress} (hp : p.cursor.Scanned)
    (level : p.cursor.depth = base) :
    (∀ as q, membersAt mode keywords base f p = .ok as q →
      q.cursor.placed <:+ p.cursor.placed ∧ q.cursor.depth = base) ∧
    ∀ fault q, membersAt mode keywords base f p = .error fault q →
      q.cursor.placed <:+ p.cursor.placed := by
  induction p using round_induction atBlockEnd_or mode keywords base f with
  | finish p ends =>
    rw [membersAt_end ends]
    refine ⟨fun as q result => ?_, fun fault q result => by cases result⟩
    cases result
    exact ⟨List.suffix_rfl, level⟩
  | more p a q continues read less ih =>
    obtain ⟨suffix, depth⟩ := h.ok hp read
    obtain ⟨oks, errors⟩ := ih (hp.of_suffix suffix) (depth.trans level)
    rw [membersAt_cons continues read less, EStateM.map]
    cases behind : membersAt mode keywords base f q with
    | ok more r =>
      refine ⟨fun as s result => ?_, fun fault s result => by cases result⟩
      cases result
      exact ⟨(oks _ _ behind).1.trans suffix, (oks _ _ behind).2⟩
    | error stop r =>
      refine ⟨fun as s result => (by cases result), fun fault s result => ?_⟩
      cases result
      exact (errors _ _ behind).trans suffix
  | last p a q continues read less =>
    obtain ⟨suffix, depth⟩ := h.ok hp read
    rw [membersAt_last continues read less]
    refine ⟨fun as s result => ?_, fun fault s result => by cases result⟩
    cases result
    exact ⟨suffix, depth.trans level⟩
  | past p fault q r continues read recovers less ih =>
    obtain ⟨suffix, depth⟩ := recover_even recovers
    have whole := suffix.trans (h.error hp read)
    obtain ⟨oks, errors⟩ := ih (hp.of_suffix whole) depth
    rw [membersAt_recover continues read recovers less]
    exact ⟨fun as s result => ⟨(oks as s result).1.trans whole, (oks as s result).2⟩,
      fun fault s result => (errors fault s result).trans whole⟩
  | rest p fault q r continues read recovers less =>
    obtain ⟨suffix, depth⟩ := recover_even recovers
    rw [membersAt_recover_last continues read recovers less]
    refine ⟨fun as s result => ?_, fun fault s result => by cases result⟩
    cases result
    exact ⟨suffix.trans (h.error hp read), depth⟩
  | stop p fault q stop r continues read recovers =>
    have suffix := h.error hp read
    rw [membersAt_stop continues read recovers]
    refine ⟨fun as s result => (by cases result), fun fault s result => ?_⟩
    cases result
    rwa [recover_stops recovers]

theorem even_members (h : Even f) : Even (members mode keywords f) where
  ok hp result := (even_membersAt h hp rfl).1 _ _ result
  error hp result := (even_membersAt h hp rfl).2 _ _ result

/-- The places in a block where its next member is read, from one on: behind a member that is
read, and where reading goes on behind a faulty one. -/
inductive Boundary (mode : Mode) (keywords : List String) (base : Nat) (member : Recovering α) :
    Progress → Progress → Prop
  | here (p : Progress) : Boundary mode keywords base member p p
  | behind {p q r : Progress} {a : α} : p.cursor.atBlockEnd = false → member p = .ok a q →
    q.size < p.size → Boundary mode keywords base member q r →
    Boundary mode keywords base member p r
  | recovered {p q r s : Progress} {fault : SyntaxFault} : p.cursor.atBlockEnd = false →
    member p = .error fault q → recover mode keywords base p.size fault q = .ok () r →
    r.size < p.size → Boundary mode keywords base member r s →
    Boundary mode keywords base member p s

/-- Between members as many blocks are open as around them. -/
theorem Boundary.even (h : Even f) {p q : Progress} (between : Boundary mode keywords base f p q)
    (hp : p.cursor.Scanned) (level : p.cursor.depth = base) :
    q.cursor.placed <:+ p.cursor.placed ∧ q.cursor.depth = base := by
  induction between with
  | here p => exact ⟨List.suffix_rfl, level⟩
  | behind _ read _ _ ih =>
    obtain ⟨suffix, depth⟩ := h.ok hp read
    obtain ⟨suffix', depth'⟩ := ih (hp.of_suffix suffix) (depth.trans level)
    exact ⟨suffix'.trans suffix, depth'⟩
  | recovered _ read recovers _ _ ih =>
    obtain ⟨suffix, depth⟩ := recover_even recovers
    have whole := suffix.trans (h.error hp read)
    obtain ⟨suffix', depth'⟩ := ih (hp.of_suffix whole) depth
    exact ⟨suffix'.trans whole, depth'⟩

end Recovering

namespace Reader

open Declaration Recovering

variable {reader : Reader}

theorem even_settingMember : Even reader.settingMember := (Even.plain (.setting _)).map _

theorem even_inclusionMember (kinds : List DeclarationKind) : Even (reader.inclusionMember kinds) :=
  (Even.plain (.inclusion _ _)).map _

theorem even_ruleMember (levels : Nat) : Even (reader.ruleMember levels) :=
  (Even.plain (.rule _ _)).map _

theorem even_token : Even Parser.token.plain := Even.plain Parser.level_token

theorem even_unexpected {α : Type} (phrase : String) :
    Even (Parser.unexpected phrase : Parser α).plain :=
  Even.plain fun _ _ => .unexpected phrase

theorem even_groupMember (levels : Nat) : Even (reader.groupMember levels) := by
  refine even_token.bind fun t => ?_
  split
  · exact even_settingMember
  · exact even_inclusionMember _
  · exact even_ruleMember levels
  · exact even_unexpected _

theorem even_group (levels : Nat) : Even (reader.group levels) := by
  refine (Even.plain (.header _ _)).bind fun (name, origin) => ?_
  cases levels with
  | zero => exact Even.plain .refuseBlock
  | succ below => exact Even.braced (even_members (even_groupMember below))

theorem even_moduleMember (levels : Nat) {inner : Recovering Module} (h : Even inner) :
    Even (reader.moduleMember levels inner) := by
  refine even_token.bind fun t => ?_
  split
  · exact even_settingMember
  · exact even_inclusionMember _
  · exact h.map _
  · exact (even_group levels).map _
  · exact even_ruleMember levels
  · exact even_unexpected _

theorem even_module (levels : Nat) : Even (reader.module levels) := by
  induction levels with
  | zero => exact (Even.plain (.header _ _)).bind fun _ => Even.plain .refuseBlock
  | succ below ih =>
    refine (Even.plain (.header _ _)).bind fun (name, origin) => ?_
    exact Even.braced (even_members (even_moduleMember below ih))

theorem even_topLevel : Even (reader.topLevel .rule) := by
  have inner : Even (reader.declaration .rule) := by
    refine even_token.bind fun t => ?_
    split
    · exact even_unexpected _
    · next found _ =>
      have rule : Even (reader.declarationOf .rule) := (Even.plain (.rule _ _)).map _
      by_cases wrong : found ≠ .rule
      · simp only [if_pos wrong]
        exact (Even.plain fun _ _ => .refuse _).bind fun _ => rule
      · simp only [if_neg wrong]
        exact rule
  constructor
  · intro p q d hp result
    rw [topLevel_eq] at result
    split at result
    · cases result
    · exact inner.ok hp result
  · intro p q fault hp result
    rw [topLevel_eq] at result
    split at result
    · cases result
      exact Cursor.advance_placed_suffix
    · exact inner.error hp result

/-- The places in a text where its next declaration is read, from one on. -/
inductive Boundary (reader : Reader) (kind : DeclarationKind) : Progress → Progress → Prop
  | here (p : Progress) : Boundary reader kind p p
  | behind {p q r : Progress} {d : Declaration} : p.cursor.token ≠ .eof →
    reader.topLevel kind p = .ok d q → q.size < p.size → Boundary reader kind q r →
    Boundary reader kind p r
  | recovered {p q r s : Progress} {fault : SyntaxFault} : p.cursor.token ≠ .eof →
    reader.topLevel kind p = .error fault q →
    recover reader.mode topKeywords 0 p.size fault q = .ok () r → r.size < p.size →
    Boundary reader kind r s → Boundary reader kind p s

/-- Between the rules of a text no block is open. -/
theorem Boundary.even {p q : Progress} (between : Boundary reader .rule p q)
    (hp : p.cursor.Scanned) (level : p.cursor.depth = 0) :
    q.cursor.placed <:+ p.cursor.placed ∧ q.cursor.depth = 0 := by
  induction between with
  | here p => exact ⟨List.suffix_rfl, level⟩
  | behind _ read _ _ ih =>
    obtain ⟨suffix, depth⟩ := even_topLevel.ok hp read
    obtain ⟨suffix', depth'⟩ := ih (hp.of_suffix suffix) (depth.trans level)
    exact ⟨suffix'.trans suffix, depth'⟩
  | recovered _ read recovers _ _ ih =>
    obtain ⟨suffix, depth⟩ := recover_even recovers
    have whole := suffix.trans (even_topLevel.error hp read)
    obtain ⟨suffix', depth'⟩ := ih (hp.of_suffix whole) depth
    exact ⟨suffix'.trans whole, depth'⟩

end Reader

/-! ## Broken rules -/

namespace Recovering

variable {α : Type} {keywords : List String} {base limit levels : Nat} {file : String}
  {f g : Recovering α} {p : Progress}

/-- What a broken rule costs in a block: its fault is recorded, and from right behind its block on
everything is read as it is read, with one place less for faults, where the rule is not written. -/
structure LosesRule (mode mode' : Mode) (keywords : List String) (base : Nat) (f g : Recovering α)
    (fault : SyntaxFault) (p behind : Progress) : Prop where
  level : behind.cursor.depth = base
  recovers : ∃ q, f p = .error fault q ∧
    recover mode keywords base p.size fault q = .ok () (behind.record fault)
  rest : membersAt mode keywords base f p =
    noting behind.recorded.length fault (membersAt mode' keywords base g behind)

/-- Behind the last fault that is recorded another one is. -/
theorem record_eq_noting (p : Progress) (fault : SyntaxFault) :
    p.record fault = p.noting p.recorded.length fault :=
  congrArg (Progress.mk p.cursor) List.insertIdx_length_self.symm

variable (b : BrokenRule file levels p.cursor)

theorem size_after : b.after.size < p.size := by
  have lengths := congrArg List.length b.next
  simp only [Cursor.placed, List.length_cons, List.length_append] at lengths
  simp only [Progress.size, Cursor.size]
  omega

theorem recover_broken (hp : p.cursor.Scanned) (level : p.cursor.depth = base)
    (room : p.recorded.length < limit) (checkpoint : Nat) :
    recover (.reporting (limit + 1)) keywords base checkpoint b.fault ⟨b.stop, p.recorded⟩ =
      .ok () (Progress.record ⟨b.after, p.recorded⟩ b.fault) := by
  have skipped := b.skip_stop hp keywords checkpoint
  rw [level] at skipped
  simp only [recover, Progress.record, List.length_append, List.length_singleton, skipped]
  rw [if_neg (by omega), if_neg (by omega)]

theorem loses_rule (hp : p.cursor.Scanned) (level : p.cursor.depth = base)
    (room : p.recorded.length < limit) (continues : p.cursor.atBlockEnd = false)
    (stops : f p = .error b.fault ⟨b.stop, p.recorded⟩)
    (notes : Notes p.recorded.length b.fault
      (membersAt (.reporting (limit + 1)) keywords base f)
      (membersAt (.reporting limit) keywords base g)) :
    LosesRule (.reporting (limit + 1)) (.reporting limit) keywords base f g b.fault p
      ⟨b.after, p.recorded⟩ := by
  have recovers : recover (.reporting (limit + 1)) keywords base p.size b.fault
      ⟨b.stop, p.recorded⟩ = .ok () (Progress.record ⟨b.after, p.recorded⟩ b.fault) :=
    recover_broken b hp level room p.size
  refine ⟨b.level.trans level, ⟨_, stops, recovers⟩, ?_⟩
  rw [membersAt_recover continues stops recovers (size_after b), record_eq_noting]
  exact notes.same le_rfl

end Recovering

namespace Reader

open Recovering

variable {file : String} {levels : Nat} {p : Progress}

theorem token_of_broken (b : BrokenRule file levels p.cursor) : p.cursor.token = .word "rule" := by
  have first := congrArg (List.map Placed.token) b.next
  have said := b.said
  rw [List.map_append] at first
  generalize b.head.map Placed.token = ts at said first
  cases said
  exact (List.cons.inj first).1

theorem ruleMember_stops (reader : Reader) (b : BrokenRule reader.file levels p.cursor) :
    reader.ruleMember levels p = .error b.fault ⟨b.stop, p.recorded⟩ := by
  change EStateM.map Member.rule (Parser.plain (Parser.rule reader.file levels)) p = _
  rw [EStateM.map, Parser.plain, b.stops]

theorem topLevel_stops (reader : Reader) (b : BrokenRule reader.file maxNesting p.cursor) :
    reader.topLevel .rule p = .error b.fault ⟨b.stop, p.recorded⟩ := by
  rw [topLevel_rule (token_of_broken b)]
  change EStateM.map Declaration.rule (Parser.plain (Parser.rule reader.file maxNesting)) p = _
  rw [EStateM.map, Parser.plain, b.stops]

/-- A text of rules loses a broken rule as a block does. -/
theorem run_loses_rule (b : BrokenRule file maxNesting p.cursor) (hp : p.cursor.Scanned)
    (level : p.cursor.depth = 0) {limit : Nat} (room : p.recorded.length < limit) :
    (∃ q, topLevel ⟨file, .reporting (limit + 1)⟩ .rule p = .error b.fault q ∧
      recover (.reporting (limit + 1)) topKeywords 0 p.size b.fault q =
        .ok () (Progress.record ⟨b.after, p.recorded⟩ b.fault)) ∧
    run ⟨file, .reporting (limit + 1)⟩ .rule p =
      (run ⟨file, .reporting limit⟩ .rule ⟨b.after, p.recorded⟩).noting p.recorded.length
        b.fault := by
  have stops := topLevel_stops ⟨file, .reporting (limit + 1)⟩ b
  have recovers : recover (.reporting (limit + 1)) topKeywords 0 p.size b.fault
      ⟨b.stop, p.recorded⟩ = .ok () (Progress.record ⟨b.after, p.recorded⟩ b.fault) :=
    recover_broken b hp level room p.size
  refine ⟨⟨_, stops, recovers⟩, ?_⟩
  rw [run_recover (by simp [token_of_broken b]) stops recovers (size_after b), record_eq_noting]
  exact run_noting .rule le_rfl

/-- **A broken rule costs that rule and one place among the faults.**  In a text that is read with
`maxErrors` places, and with more than one of them left, a rule is next whose block ends with the
brace that matches its first, and it is broken within that block.  Be it a member of a group or a
module, or a declaration of a text of rules: its fault is recorded and no other, reading goes on
right behind the block with as many blocks open as before, and from there on everything is read as
it is where the rule is not written and there is one place less.  The last part says so of all that
encloses the block and of what follows these. -/
theorem loses_broken_rule {source : String} {tokens : List Placed}
    (scanned : Token.scan source = .ok tokens) {maxErrors : Nat} {start : Progress}
    (among : start.cursor.placed <:+ tokens) (room : p.recorded.length < maxErrors - 1)
    (b : BrokenRule file levels p.cursor) :
    let whole : Reader := ⟨file, .upTo maxErrors⟩
    let without : Reader := ⟨file, .upTo (maxErrors - 1)⟩
    let behind : Progress := ⟨b.after, p.recorded⟩
    let noted := p.recorded.length
    (Recovering.Boundary whole.mode groupKeywords start.cursor.depth (whole.groupMember levels)
        start p →
      LosesRule whole.mode without.mode groupKeywords start.cursor.depth
        (whole.groupMember levels) (without.groupMember levels) b.fault p behind) ∧
    (Recovering.Boundary whole.mode moduleKeywords start.cursor.depth
        (whole.moduleMember levels (whole.module levels)) start p →
      LosesRule whole.mode without.mode moduleKeywords start.cursor.depth
        (whole.moduleMember levels (whole.module levels))
        (without.moduleMember levels (without.module levels)) b.fault p behind) ∧
    (Boundary whole .rule start p → start.cursor.depth = 0 → levels = maxNesting →
      behind.cursor.depth = 0 ∧
      (∃ q, whole.topLevel .rule p = .error b.fault q ∧
        recover whole.mode topKeywords 0 p.size b.fault q = .ok () (behind.record b.fault)) ∧
      whole.run .rule p = (without.run .rule behind).noting noted b.fault) ∧
    ∀ (outer : Nat) (q : Progress), noted ≤ q.recorded.length →
      (∀ base, membersAt whole.mode moduleKeywords base
          (whole.moduleMember outer (whole.module outer)) (q.noting noted b.fault) =
        noting noted b.fault (membersAt without.mode moduleKeywords base
          (without.moduleMember outer (without.module outer)) q)) ∧
      (∀ base, membersAt whole.mode planKeywords base (whole.planMember outer)
          (q.noting noted b.fault) =
        noting noted b.fault (membersAt without.mode planKeywords base
          (without.planMember outer) q)) ∧
      ∀ kind, whole.run kind (q.noting noted b.fault) =
        (without.run kind q).noting noted b.fault := by
  obtain ⟨limit, rfl⟩ : ∃ limit, maxErrors = limit + 1 := ⟨maxErrors - 1, by omega⟩
  rw [Nat.add_sub_cancel] at room ⊢
  have upTo : Mode.upTo (limit + 1) = .reporting (limit + 1) := by simp [Mode.upTo]
  have upTo' : Mode.upTo limit = .reporting limit := by
    rw [Mode.upTo, Nat.max_eq_left (by omega)]
  rw [upTo, upTo']
  have first := token_of_broken b
  have continues : p.cursor.atBlockEnd = false := by simp [Cursor.atBlockEnd, first]
  have start' : start.cursor.Scanned := Cursor.scanned_of_scan scanned among
  refine ⟨fun between => ?_, fun between => ?_, fun between level deepest => ?_,
    fun outer q noted => ⟨fun base => ?_, fun base => ?_, fun kind => ?_⟩⟩
  · obtain ⟨suffix, level⟩ := between.even (even_groupMember levels) start' rfl
    refine loses_rule b (start'.of_suffix suffix) level room continues ?_
      (notes_membersAt (notes_groupMember levels) _)
    exact (groupMember_rule first).trans (ruleMember_stops ⟨file, _⟩ b)
  · obtain ⟨suffix, level⟩ :=
      between.even (even_moduleMember levels (even_module levels)) start' rfl
    refine loses_rule b (start'.of_suffix suffix) level room continues ?_
      (notes_membersAt (notes_moduleMember levels (notes_module levels)) _)
    exact (moduleMember_rule first).trans (ruleMember_stops ⟨file, _⟩ b)
  · subst deepest
    obtain ⟨suffix, level'⟩ := between.even start' level
    exact ⟨b.level.trans level', run_loses_rule b (start'.of_suffix suffix) level' room⟩
  · exact (notes_membersAt (notes_moduleMember outer (notes_module outer)) base).same noted
  · exact (notes_membersAt (notes_planMember outer) base).same noted
  · exact run_noting kind noted

/-- The tokens of a group of two rules, the first of them broken in its inner block. -/
def brokenTokens : List Placed :=
  [(.word "group", 1), (.word "g", 7), (.braceOpen, 9), (.word "rule", 11), (.word "a", 16),
    (.word "on", 18), (.word "b", 21), (.braceOpen, 23), (.word "assert", 25), (.braceOpen, 32),
    (.word "c", 34), (.braceClose, 36), (.braceClose, 38), (.word "rule", 40), (.word "d", 45),
    (.word "on", 47), (.word "e", 50), (.braceOpen, 52), (.word "assert", 54), (.braceOpen, 61),
    (.word "f", 63), (.word "is", 65), (.word "null", 68), (.braceClose, 73), (.braceClose, 75),
    (.braceClose, 77), (.eof, 78)].map fun (token, column) => ⟨token, ⟨1, column⟩⟩

/-- The place in front of one of these tokens, with some open blocks. -/
def brokenAt (i depth : Nat) : Cursor :=
  ⟨brokenTokens.getD i ⟨.eof, .start⟩, brokenTokens.drop (i + 1), depth⟩

/-- Where a predicate was expected a brace came, and reading goes on at the second rule. -/
theorem loses_broken_rule_group :
    let fault : SyntaxFault := ⟨⟨1, 36⟩, .expected "a predicate" .braceClose⟩
    let whole : Reader := ⟨"g", .upTo 3⟩
    let without : Reader := ⟨"g", .upTo 2⟩
    Token.scan ("group g \x7b rule a on b \x7b assert \x7b c \x7d \x7d " ++
      "rule d on e \x7b assert \x7b f is null \x7d \x7d \x7d") = .ok brokenTokens ∧
    Parser.rule "g" 127 (brokenAt 3 1) = .error fault (brokenAt 11 3) ∧
    LosesRule whole.mode without.mode groupKeywords 1 (whole.groupMember 127)
      (without.groupMember 127) fault ⟨brokenAt 3 1, []⟩ ⟨brokenAt 13 1, []⟩ := by
  intro fault whole without
  have scanned : Token.scan ("group g \x7b rule a on b \x7b assert \x7b c \x7d \x7d " ++
      "rule d on e \x7b assert \x7b f is null \x7d \x7d \x7d") = .ok brokenTokens := by
    decide +kernel
  have stops : Parser.rule "g" 127 (brokenAt 3 1) = .error fault (brokenAt 11 3) := by
    have fails : (match Parser.rule "g" 127 (brokenAt 3 1) with
        | .ok _ _ => none
        | .error fault stop => some (fault, stop)) = some (fault, brokenAt 11 3) := by
      decide +kernel
    split at fails
    · cases fails
    · next result =>
      cases fails
      exact result
  let broken : BrokenRule "g" 127 (brokenAt 3 1) := {
    head := (brokenTokens.drop 3).take 4
    opening := ⟨.braceOpen, ⟨1, 23⟩⟩
    body := (brokenTokens.drop 8).take 4
    closing := ⟨.braceClose, ⟨1, 38⟩⟩
    after := brokenAt 13 1
    fault, stop := brokenAt 11 3
    next := by decide +kernel
    said := .mk (.word _) (.words "b" [])
    opens := rfl
    balanced := by decide +kernel
    closes := rfl
    level := rfl
    stops
    inside := by decide +kernel }
  let start : Progress := ⟨brokenAt 3 1, []⟩
  have among : start.cursor.placed <:+ brokenTokens := by decide +kernel
  have room : start.recorded.length < 3 - 1 := by decide
  exact ⟨scanned, stops, (loses_broken_rule scanned among room broken).1 (.here start)⟩

end Reader

end Compliance
