import Compliance.Proofs.Token.Reading
import Compliance.Proofs.Token.Scanned

/-!
# Taking tokens

What a parser accepts is said in terms of the tokens that it takes: where it has a
value, the cursor has moved over some tokens, one at a time.  Here is what the
small parsers take, and that a repetition goes in rounds.  The cursor has to stand
among the tokens of a text, because nothing is taken at the end.

## Main definitions

* `Cursor.Ended` — the tokens from the cursor on end with the end of a text.
* `Cursor.Scanned` — the cursor stands among the tokens of a text.
* `Cursor.Takes c ts d` — from `c` the tokens `ts` are taken up to `d`.
* `Parser.Rounds goOn item c as d` — rounds of `item` lead from `c` to `d`.
* `Parser.repeatWhile_eq_ok` — a repetition is made of rounds.
-/

namespace Compliance

namespace Cursor

variable {c d e : Cursor} {t : Token} {ts us : List Token}

/-- The last token is the end of a text. -/
def Ended (c : Cursor) : Prop := c.tokens.getLast? = some .eof

theorem Ended.ahead_ne_nil (h : c.Ended) (other : c.token ≠ .eof) : c.ahead ≠ [] := by
  intro last
  rw [Ended, tokens, last, List.map_nil, List.getLast?_singleton] at h
  exact other (Option.some.inj h)

/-- The cursor stands among the tokens of a text. -/
structure Scanned (c : Cursor) : Prop where
  ends : c.tokens.getLast? = some .eof
  genuine : ∀ t ∈ c.tokens, t.Genuine

theorem scanned_of_scan {source : String} {tokens : List Placed}
    (h : Token.scan source = .ok tokens) (among : c.current :: c.ahead <:+ tokens) :
    c.Scanned := by
  obtain ⟨before, rfl⟩ := among
  obtain ⟨ends, genuine⟩ := Token.genuine_of_scan h
  rw [List.map_append] at ends genuine
  constructor
  · rw [List.getLast?_append] at ends
    simpa [Cursor.tokens, token] using ends
  · intro t ht
    exact genuine t (List.mem_append_right _ ht)

theorem Scanned.genuine_token (h : c.Scanned) : c.token.Genuine := h.genuine _ List.mem_cons_self

/-- The text goes on behind any token that is not its end. -/
theorem Scanned.ahead_ne_nil (h : c.Scanned) (other : c.token ≠ .eof) : c.ahead ≠ [] :=
  Ended.ahead_ne_nil h.ends other

theorem Scanned.advance (h : c.Scanned) : c.advance.Scanned := by
  cases ahead : c.ahead with
  | nil =>
    have same : c.advance = c := by rw [Cursor.advance, ahead]
    rwa [same]
  | cons next more =>
    have tokens : c.tokens = c.token :: next.token :: more.map Placed.token := by
      rw [Cursor.tokens, ahead, List.map_cons]
    have behind := tokens_advance tokens
    constructor
    · rw [behind, ← h.ends, tokens, List.getLast?_cons_cons]
    · intro t ht
      rw [behind] at ht
      exact h.genuine t (tokens ▸ List.mem_cons_of_mem _ ht)

theorem Scanned.withDepth (h : c.Scanned) (n : Nat) : ({ c with depth := n } : Cursor).Scanned :=
  ⟨h.ends, h.genuine⟩

/-- From one cursor some tokens are taken up to another.  The last token is never taken. -/
inductive Takes : Cursor → List Token → Cursor → Prop
  | nil (c : Cursor) : Takes c [] c
  | cons {c d : Cursor} {t : Token} {ts : List Token} :
    c.token = t → c.ahead ≠ [] → Takes c.advance ts d → Takes c (t :: ts) d

@[simp] theorem takes_nil : c.Takes [] d ↔ d = c := by
  constructor
  · intro h
    cases h
    rfl
  · rintro rfl
    exact .nil d

theorem takes_cons :
    c.Takes (t :: ts) d ↔ c.token = t ∧ c.ahead ≠ [] ∧ c.advance.Takes ts d := by
  constructor
  · intro h
    cases h with
    | cons current more behind => exact ⟨current, more, behind⟩
  · rintro ⟨current, more, behind⟩
    exact .cons current more behind

theorem takes_append : c.Takes (ts ++ us) d ↔ ∃ e, c.Takes ts e ∧ e.Takes us d := by
  induction ts generalizing c with
  | nil => simp
  | cons t ts ih =>
    simp only [List.cons_append, takes_cons, ih]
    grind

/-- Among the tokens of a text every token but the end can be taken. -/
theorem Scanned.takes_cons (h : c.Scanned) (other : t ≠ .eof) :
    c.Takes (t :: ts) d ↔ c.token = t ∧ c.advance.Takes ts d := by
  rw [Cursor.takes_cons]
  constructor
  · rintro ⟨current, -, behind⟩
    exact ⟨current, behind⟩
  · rintro ⟨rfl, behind⟩
    exact ⟨rfl, h.ahead_ne_nil other, behind⟩

theorem Scanned.takes_one (h : c.Scanned) (current : c.token = t) (other : t ≠ .eof) :
    c.Takes [t] c.advance :=
  (h.takes_cons other).mpr ⟨current, .nil _⟩

theorem Takes.scanned (h : c.Takes ts d) (scanned : c.Scanned) : d.Scanned := by
  induction h with
  | nil => exact scanned
  | cons _ _ _ ih => exact ih scanned.advance

theorem Takes.tokens (h : c.Takes ts d) : c.tokens = ts ++ d.tokens := by
  induction h with
  | nil => rfl
  | @cons c d t ts current more _ ih =>
    obtain ⟨next, rest, ahead⟩ := List.exists_cons_of_ne_nil more
    have whole : c.tokens = t :: next.token :: rest.map Placed.token := by
      rw [Cursor.tokens, ahead, List.map_cons, current]
    rw [List.cons_append, ← ih, tokens_advance whole, whole]

/-- What is taken is no longer ahead. -/
theorem Takes.size (h : c.Takes ts d) : d.size + ts.length = c.size := by
  have lengths := congrArg List.length h.tokens
  rw [List.length_append, length_tokens, length_tokens] at lengths
  omega

/-- The number of open blocks does not matter. -/
theorem Takes.withDepth (h : c.Takes ts d) (n : Nat) :
    ({ c with depth := n } : Cursor).Takes ts { d with depth := n } := by
  induction h with
  | nil => exact .nil _
  | @cons c d t ts current more _ ih =>
    have same : ({ c with depth := n } : Cursor).advance = { c.advance with depth := n } := by
      simp only [Cursor.advance]
      split <;> rfl
    exact .cons current more (same ▸ ih)

theorem depth_advance (c : Cursor) : c.advance.depth = c.depth := by
  rw [Cursor.advance]
  split <;> rfl

theorem Takes.depth (h : c.Takes ts d) : d.depth = c.depth := by
  induction h with
  | nil => rfl
  | cons _ _ _ ih => rw [ih, depth_advance]

/-- **Taking tokens is leaving them behind.** -/
theorem takes_iff : c.Takes ts d ↔ ∃ consumed, c.current :: c.ahead =
    consumed ++ d.current :: d.ahead ∧ d.depth = c.depth ∧ ts = consumed.map Placed.token := by
  constructor
  · intro h
    refine ⟨(c.current :: c.ahead).take ts.length, ?_, h.depth, ?_⟩
    · induction h with
      | nil => rfl
      | @cons c d t ts _ more _ ih =>
        obtain ⟨next, rest, ahead⟩ := List.exists_cons_of_ne_nil more
        have step : c.advance.current :: c.advance.ahead = next :: rest := by
          simp only [Cursor.advance, ahead]
        rw [step] at ih
        rw [ahead, List.length_cons, List.take_succ_cons, List.cons_append, ← ih]
    · rw [List.map_take]
      have whole : (c.current :: c.ahead).map Placed.token = ts ++ d.tokens := h.tokens
      rw [whole, List.take_left]
  · rintro ⟨consumed, split, depth, rfl⟩
    induction consumed generalizing c with
    | nil =>
      obtain ⟨current, ahead⟩ := List.cons.inj split
      have same : d = c := by
        cases c
        cases d
        simp_all
      exact takes_nil.mpr same
    | cons first more ih =>
      obtain ⟨current, ahead⟩ := List.cons.inj split
      have nonempty : c.ahead ≠ [] := by simp [ahead]
      refine .cons (congrArg Placed.token current) nonempty (ih ?_ ?_)
      · obtain ⟨next, rest, hc⟩ := List.exists_cons_of_ne_nil nonempty
        simp only [Cursor.advance, hc]
        exact hc.symm.trans ahead
      · rw [depth, depth_advance]

end Cursor

namespace Parser

variable {α β : Type} {c d : Cursor}

/-! ## Runs -/

theorem pure_run (a : α) (c : Cursor) : (pure a : Parser α) c = .ok a c := rfl

theorem pure_eq_ok {a b : α} : (pure a : Parser α) c = .ok b d ↔ b = a ∧ d = c := by
  rw [pure_run, EStateM.Result.ok.injEq, eq_comm, @eq_comm _ c]

theorem token_bind (f : Token → Parser β) (c : Cursor) : (token >>= f) c = f c.token c := rfl

theorem position_bind (f : Position → Parser β) (c : Cursor) :
    (position >>= f) c = f c.current.position c := rfl

theorem advance_bind (f : Unit → Parser β) (c : Cursor) :
    (advance >>= f) c = f () c.advance := rfl

theorem unexpected_ne_ok (phrase : String) (a : α) :
    (unexpected phrase : Parser α) c ≠ .ok a d := by
  simp [unexpected]

theorem refuse_ne_ok (cause : SyntaxCause) (a : α) : (refuse cause : Parser α) c ≠ .ok a d := by
  simp [refuse]

theorem expect_eq_ok {t : Token} {u : Unit} :
    expect t c = .ok u d ↔ c.token = t ∧ d = c.advance := by
  rw [expect, token_bind]
  by_cases same : c.token = t
  · rw [if_pos same]
    simp [advance, same, eq_comm]
  · rw [if_neg same]
    simp [unexpected, same]

theorem string_eq_ok {s : String} : string c = .ok s d ↔ c.token = .string s ∧ d = c.advance := by
  rw [string, token_bind]
  cases c.token <;> simp [advance_bind, pure_eq_ok, unexpected_ne_ok, eq_comm]

theorem openBlock_eq_ok {u : Unit} : openBlock c = .ok u d ↔
    c.token = .braceOpen ∧ d = { c.advance with depth := c.depth + 1 } := by
  have modified : ∀ e : Cursor, (modify fun c => { c with depth := c.depth + 1 } : Parser Unit) e =
      .ok () { e with depth := e.depth + 1 } := fun _ => rfl
  simp only [openBlock, bind_eq_ok, expect_eq_ok, modified]
  simp [Cursor.depth_advance, eq_comm]

theorem closeBlock_eq_ok {u : Unit} : closeBlock c = .ok u d ↔
    c.token = .braceClose ∧ d = { c.advance with depth := c.depth - 1 } := by
  have modified : ∀ e : Cursor, (modify fun c => { c with depth := c.depth - 1 } : Parser Unit) e =
      .ok () { e with depth := e.depth - 1 } := fun _ => rfl
  simp only [closeBlock, bind_eq_ok, expect_eq_ok, modified]
  simp [Cursor.depth_advance, eq_comm]

/-! ## Repetition -/

variable {goOn : Cursor → Bool} {item : Parser α}

/-- Rounds of a parser from one cursor to another, as long as a test allows one more. -/
inductive Rounds (goOn : Cursor → Bool) (item : Parser α) : Cursor → List α → Cursor → Prop
  | done {c : Cursor} : goOn c = false → Rounds goOn item c [] c
  | more {c d e : Cursor} {a : α} {as : List α} :
    goOn c = true → item c = .ok a e → Rounds goOn item e as d → Rounds goOn item c (a :: as) d

/-- A repetition that has some values already goes on with rounds, if each round takes something. -/
theorem foldWhile_eq_ok {good : Cursor → Prop} (moves : ∀ c a e, good c → goOn c = true →
      item c = .ok a e → good e ∧ e.size < c.size)
    {values all : List α} (hc : good c) :
    foldWhile goOn (fun values => do return (← item) :: values) values c = .ok all d ↔
      ∃ as, Rounds goOn item c as d ∧ all = as.reverse ++ values := by
  induction size : c.size using Nat.strongRecOn generalizing c values with
  | ind n ih =>
    cases continues : goOn c with
    | false =>
      rw [foldWhile_end continues]
      constructor
      · intro h
        cases h
        exact ⟨[], .done continues, rfl⟩
      · rintro ⟨as, rounds, rfl⟩
        cases rounds with
        | done => rfl
        | more continues' => simp [continues] at continues'
    | true =>
      cases first : item c with
      | error fault e =>
        rw [foldWhile_stop continues (bind_error first)]
        constructor
        · intro h
          cases h
        · rintro ⟨as, rounds, rfl⟩
          cases rounds with
          | done stops => simp [continues] at stops
          | more _ first' => simp [first] at first'
      | ok a e =>
        obtain ⟨he, less⟩ := moves c a e hc continues first
        rw [foldWhile_cons continues (bind_ok first) less, ih e.size (size ▸ less) he rfl]
        constructor
        · rintro ⟨as, rounds, rfl⟩
          exact ⟨a :: as, .more continues first rounds, by simp⟩
        · rintro ⟨as, rounds, rfl⟩
          cases rounds with
          | done stops => simp [continues] at stops
          | more _ first' rounds =>
            obtain ⟨rfl, rfl⟩ : _ = a ∧ _ = e := by simpa [first, eq_comm] using first'
            exact ⟨_, rounds, by simp⟩

/-- **A repetition is made of rounds**, if each round takes something. -/
theorem repeatWhile_eq_ok {good : Cursor → Prop} (moves : ∀ c a e, good c → goOn c = true →
      item c = .ok a e → good e ∧ e.size < c.size) {as : List α} (hc : good c) :
    repeatWhile goOn item c = .ok as d ↔ Rounds goOn item c as d := by
  rw [repeatWhile, bind_eq_ok]
  simp only [foldWhile_eq_ok moves hc, pure_eq_ok, List.append_nil]
  constructor
  · rintro ⟨_, e, ⟨as, rounds, rfl⟩, rfl, rfl⟩
    rwa [List.reverse_reverse]
  · intro rounds
    exact ⟨as.reverse, d, ⟨as, rounds, rfl⟩, List.reverse_reverse as |>.symm, rfl⟩

end Parser

end Compliance
