import Compliance.Proofs.Declaration.Balance

/-!
# Broken rules

A rule may be broken anywhere in its block, at any depth, and yet where the block ends
is known from the braces alone.  The fault shows somewhere in front of that end, the
cursor there counts the blocks that are open, and so skipping from there comes to stand
right behind the block.

## Main definitions

* `Grammar.RuleHead` — what stands in front of the block of a rule.
* `BrokenRule file levels c` — a rule that is next, in braces that match, and broken in these.
* `BrokenRule.skip_stop` — where reading goes on behind a broken rule.
-/

namespace Compliance

/-! ## Heads of rules -/

namespace Grammar

/-- The tokens of a reference: a quoted string, or words with colons between. -/
inductive Reference : List Token → Prop
  | quoted (s : String) : Reference [.string s]
  | words (first : String) (more : List String) :
    Reference (.word first :: more.flatMap fun w => [.colon, .word w])

/-- The tokens in front of the block of a rule: `rule`, a name, `on` and a reference. -/
inductive RuleHead : List Token → Prop
  | mk {t : Token} {name : String} {ts : List Token} : Name t name → Reference ts →
    RuleHead (.word "rule" :: t :: .word "on" :: ts)

end Grammar

namespace Cursor

variable {c d e : Cursor}

/-- Where the same tokens are left and as many blocks are open, there is one cursor. -/
theorem eq_of_suffix (hd : d.placed <:+ c.placed) (he : e.placed <:+ c.placed)
    (same : d.tokens.length = e.tokens.length) (depth : d.depth = e.depth) : d = e := by
  have lengths : d.placed.length = e.placed.length := by
    simpa [placed, tokens] using same
  have placed' : d.placed = e.placed :=
    (List.suffix_of_suffix_length_le hd he lengths.le).eq_of_length lengths
  obtain ⟨current, ahead⟩ := List.cons.inj placed'
  cases d
  cases e
  simp_all

theorem tokens_placed (c : Cursor) : c.placed.map Placed.token = c.tokens := rfl

theorem placed_inside (more : c.ahead ≠ []) : c.inside.placed = c.ahead := by
  obtain ⟨next, rest, ahead⟩ := List.exists_cons_of_ne_nil more
  simp [inside, placed, advance, ahead]

end Cursor

namespace Parser

variable {c d e : Cursor} {fault : SyntaxFault}

theorem reference_read (phrase : String) {ts rest : List Token} {next : Token}
    (said : Grammar.Reference ts) (hc : c.tokens = ts ++ next :: rest) (behind : next ≠ .colon) :
    ∃ target d, reference phrase c = .ok target d ∧ d.tokens = next :: rest := by
  cases said with
  | quoted s =>
    have quoted : Reads AnyToken (reference phrase) [.string s] s :=
      Reads.token (Reads.advance Reads.pure)
    exact ⟨s, quoted c next rest hc trivial⟩
  | words first more => exact ⟨_, reads_words phrase first more c next rest hc behind⟩

theorem header_read (file : String) {kind : DeclarationKind} (hc : c.Scanned) {t : Token}
    {name : String} {rest : List Token} (whole : c.tokens = .word kind.keyword :: t :: rest)
    (named : Grammar.Name t name) :
    header file kind c = .ok (name, ⟨file, c.current.position.line⟩) c.advance.advance := by
  have origin' : origin file c = .ok ⟨file, c.current.position.line⟩ c := rfl
  have keyword : expectWord kind.keyword c = .ok () c.advance :=
    expect_eq_ok.mpr ⟨Cursor.token_of_tokens whole, rfl⟩
  have first : c.advance.token = t := Cursor.token_of_tokens (Cursor.tokens_advance whole)
  have name' : nameOf ("a " ++ kind.keyword ++ " name") c.advance = .ok name c.advance.advance :=
    (nameOf_eq_ok hc.advance).mpr ⟨first.symm ▸ named, rfl⟩
  rw [header, bind_ok origin', bind_ok keyword, bind_ok name']
  rfl

theorem rule_head (file : String) (levels : Nat) (hc : c.Scanned) {head : List Placed}
    (split : c.placed = head ++ e.placed) (said : Grammar.RuleHead (head.map Placed.token))
    (opens : e.token = .braceOpen) (depth : e.depth = c.depth) :
    ∃ (name : String) (k : RuleParts × List Statement → Declaration.Rule),
      rule file levels c = match levels with
        | 0 => (do return k (← refuseBlock) : Parser Declaration.Rule) e
        | below + 1 => (do return k (← ruleBody file name below) : Parser Declaration.Rule) e := by
  have whole : c.tokens = head.map Placed.token ++ e.tokens := by
    rw [← c.tokens_placed, split, List.map_append, e.tokens_placed]
  generalize head.map Placed.token = us at said whole
  obtain @⟨t, name, ts, named, said⟩ := said
  -- The cursor behind each of the first three tokens.
  have first : c.advance.tokens = t :: .word "on" :: (ts ++ e.tokens) := Cursor.tokens_advance whole
  have second : c.advance.advance.tokens = .word "on" :: (ts ++ e.tokens) :=
    Cursor.tokens_advance first
  obtain ⟨u, us, more⟩ : ∃ u us, ts ++ e.tokens = u :: us :=
    List.exists_cons_of_ne_nil (by simp [Cursor.tokens])
  have third : c.advance.advance.advance.tokens = ts ++ e.tokens := by
    rw [more] at second ⊢
    exact Cursor.tokens_advance second
  obtain ⟨target, d, read, rest⟩ := reference_read "a resource type" said third
    (by simp [opens])
  have climbs := (Level.reference _ hc.advance.advance.advance).ok read
  obtain rfl : d = e := by
    refine Cursor.eq_of_suffix (c := c) ?_ ⟨head, split.symm⟩ (congrArg List.length rest) ?_
    · exact climbs.suffix.trans (Cursor.advance_placed_suffix.trans
        (Cursor.advance_placed_suffix.trans Cursor.advance_placed_suffix))
    · obtain ⟨-, -, -, same⟩ := climbs
      simp only [Cursor.depth_advance] at same
      omega
  have header' : header file .rule c =
      .ok (name, ⟨file, c.current.position.line⟩) c.advance.advance :=
    header_read file hc whole named
  have wordOn : expectWord "on" c.advance.advance = .ok () c.advance.advance.advance :=
    expect_eq_ok.mpr ⟨Cursor.token_of_tokens second, rfl⟩
  refine ⟨name, fun body => {
    name, target, assertions := body.2, origin := ⟨file, c.current.position.line⟩
    settings := body.1.settings.reverse
    conditions := body.1.conditions.getD [] }, ?_⟩
  simp only [rule, Parsing.enter_cursor, Parsing.take_cursor]
  rw [bind_ok header']
  dsimp only
  rw [bind_ok wordOn, bind_ok read]
  cases levels <;> rfl

/-- A fault of what is only put together behind a parser is one of the parser. -/
theorem error_of_into {α β : Type} {P : Parser α} {k : α → β}
    (result : (do return k (← P) : Parser β) c = .error fault d) : P c = .error fault d := by
  cases first : P c with
  | ok a e =>
    rw [bind_ok first] at result
    cases result
  | error fault' e =>
    rw [bind_error first] at result
    cases result
    rfl

theorem refuseBlock_stops {α : Type} (result : (refuseBlock : Parser α) c = .error fault d) :
    d = c := by
  rw [refuseBlock, token_bind] at result
  split at result <;> cases result <;> rfl

/-- **A rule whose head is read stops at its opening brace, or behind that in its block**, and
counts there the blocks that it has opened. -/
theorem rule_stops_inside {file : String} {levels : Nat} (hc : c.Scanned) {head : List Placed}
    (split : c.placed = head ++ e.placed) (said : Grammar.RuleHead (head.map Placed.token))
    (opens : e.token = .braceOpen) (depth : e.depth = c.depth)
    (result : rule file levels c = .error fault d) : d = e ∨ ∃ n, e.inside.Climbs d n := by
  obtain ⟨name, k, same⟩ := rule_head file levels hc split said opens depth
  rw [same] at result
  cases levels with
  | zero => exact .inl (refuseBlock_stops (error_of_into result))
  | succ below =>
    have body := error_of_into result
    rw [ruleBody_eq] at body
    have he : e.Scanned := hc.of_suffix ⟨head, split.symm⟩
    exact (braced_stops (Level.ruleParts file name below) he body).imp_right And.right

end Parser

/-! ## Skipping -/

/-- **Skipping the rest of a block leads right behind it.**  Within a block as many blocks are open
as the braces say, so the brace that closes the last of them is found, and no keyword is taken for
the start of another member. -/
theorem skipFrom_block (keywords : List String) (base checkpoint : Nat) {n : Nat}
    {body : List Placed} {closing : Placed} {after : Cursor}
    (climbs : climb n (body.map Placed.token) = some 0) (closes : closing.token = .braceClose)
    {current : Placed} {ahead : List Placed}
    (split : current :: ahead = body ++ closing :: after.placed) :
    skipFrom keywords base checkpoint (base + 1 + n) current ahead =
      ⟨after.current, after.ahead, base⟩ := by
  induction body generalizing n current ahead with
  | nil =>
    obtain ⟨rfl, rfl⟩ := List.cons.inj split
    obtain rfl := Option.some.inj climbs
    simp [skipFrom, Cursor.placed, closes]
  | cons t body ih =>
    obtain ⟨rfl, ahead'⟩ := List.cons.inj split
    obtain ⟨next, more, rfl⟩ : ∃ next more, ahead = next :: more :=
      List.exists_cons_of_ne_nil (by rw [ahead']; simp)
    rw [List.map_cons, climb_cons] at climbs
    cases token : current.token with
    | eof => simp [token, Token.step] at climbs
    | braceOpen =>
      rw [token] at climbs
      simp only [skipFrom, token]
      exact ih (n := n + 1) climbs ahead'
    | braceClose =>
      rw [token] at climbs
      cases n with
      | zero => simp [Token.step] at climbs
      | succ n =>
        simp only [skipFrom, token]
        rw [if_neg (by omega), if_neg (by omega)]
        exact ih (n := n) climbs ahead'
    | word text =>
      rw [token] at climbs
      simp only [skipFrom, token]
      rw [if_neg fun keyword => by omega]
      exact ih (n := n) climbs ahead'
    | _ =>
      rw [token] at climbs
      simp only [skipFrom, token]
      exact ih (n := n) climbs ahead'

/-! ## Broken rules -/

/-- A rule that is next: its head, and a block in braces that match.  It is broken within these. -/
structure BrokenRule (file : String) (levels : Nat) (c : Cursor) where
  head : List Placed
  opening : Placed
  body : List Placed
  closing : Placed
  /-- Right behind the block, with as many open blocks as in front of the rule. -/
  after : Cursor
  /-- The fault of the rule, and where it stops the reading. -/
  fault : SyntaxFault
  stop : Cursor
  next : c.placed = head ++ opening :: (body ++ closing :: after.placed)
  said : Grammar.RuleHead (head.map Placed.token)
  opens : opening.token = .braceOpen
  balanced : climb 0 (body.map Placed.token) = some 0
  closes : closing.token = .braceClose
  level : after.depth = c.depth
  stops : Parser.rule file levels c = .error fault stop
  /-- The opening brace has been taken. -/
  inside : stop.placed <:+ body ++ closing :: after.placed

namespace BrokenRule

variable {file : String} {levels : Nat} {c : Cursor} (b : BrokenRule file levels c)

/-- Where reading stops, a part of the block is left, and the open blocks are counted. -/
theorem exists_rest (hc : c.Scanned) : ∃ n rest, climb n (rest.map Placed.token) = some 0 ∧
    b.stop.placed = rest ++ b.closing :: b.after.placed ∧ b.stop.depth = c.depth + 1 + n := by
  -- The cursor on the opening brace, and behind it.
  let e : Cursor := ⟨b.opening, b.body ++ b.closing :: b.after.placed, c.depth⟩
  have more : e.ahead ≠ [] := by simp [e]
  have stopped : b.stop = e ∨ ∃ n, e.inside.Climbs b.stop n :=
    Parser.rule_stops_inside hc b.next b.said b.opens rfl b.stops
  have within : b.stop.placed.length ≤ e.ahead.length := b.inside.length_le
  rcases stopped with same | ⟨n, inner, split, climbs, depth⟩
  · rw [same, Cursor.placed, List.length_cons] at within
    omega
  · rw [Cursor.placed_inside more] at split
    have count : b.stop.depth = c.depth + 1 + n := depth
    rcases List.append_eq_append_iff.mp split with ⟨us, rfl, rest⟩ | ⟨us, body, rest⟩
    · rw [List.map_append, climb_append, b.balanced, Option.bind_some] at climbs
      cases us with
      | nil =>
        obtain rfl := Option.some.inj climbs
        exact ⟨0, [], rfl, rest.symm, count⟩
      | cons u us =>
        -- The brace that closes the block is not behind it.
        obtain ⟨rfl, -⟩ := List.cons.inj rest
        rw [List.map_cons, climb_cons, b.closes] at climbs
        cases climbs
    · refine ⟨n, us, ?_, rest, count⟩
      have balanced := b.balanced
      rwa [body, List.map_append, climb_append, climbs] at balanced

/-- **Skipping leads from the fault of a broken rule right behind its block.** -/
theorem skip_stop (hc : c.Scanned) (keywords : List String) (checkpoint : Nat) :
    b.stop.skip keywords c.depth checkpoint = b.after := by
  obtain ⟨n, rest, climbs, split, depth⟩ := b.exists_rest hc
  have skipped := skipFrom_block keywords c.depth checkpoint climbs b.closes split
  rw [Cursor.skip, depth, Nat.max_eq_left (by omega), skipped, ← b.level]

end BrokenRule

end Compliance
