import Compliance.Proofs.Sequence
import Compliance.Token.Cursor

/-!
# Reading tokens back

What a parser does with a text depends on the tokens ahead and not on where they
stand.  A parser reads some tokens if, wherever these come next, it moves behind
them with the same value; what may come behind them is part of it, as some
parsers look there before they stop.

## Main definitions

* `Cursor.tokens` — the current token and those ahead.
* `Parser.Reads follow p ts a` — in front of a token with `follow`, `p` reads `ts` as `a`.
* `Parser.Stops p ts cause` — where `ts` come next, `p` stops for the given cause.
* `Parser.ReadsEach` — a parser reads each of several values, one behind the other.
* `Parser.reads_repeatWhile` — repeating a parser reads all of them.
-/

namespace Compliance

/-- The current token and those ahead. -/
def Cursor.tokens (c : Cursor) : List Token := c.token :: c.ahead.map Placed.token

namespace Cursor

theorem length_tokens (c : Cursor) : c.tokens.length = c.size + 1 := by
  rw [tokens, List.length_cons, List.length_map, size]

theorem token_of_tokens {c : Cursor} {t : Token} {ts : List Token} (h : c.tokens = t :: ts) :
    c.token = t := (List.cons.inj h).1

theorem tokens_advance {c : Cursor} {t next : Token} {rest : List Token}
    (h : c.tokens = t :: next :: rest) : c.advance.tokens = next :: rest := by
  have ahead := (List.cons.inj h).2
  rw [advance]
  split
  · next atLast =>
    rw [atLast] at ahead
    cases ahead
  · next placed more hasNext =>
    rw [hasNext, List.map_cons] at ahead
    exact ahead

end Cursor

namespace Parser

variable {α β : Type}

/-- Where some tokens come next and behind them one that satisfies a condition, a parser moves
behind them and has a value. -/
def Reads (follow : Token → Prop) (p : Parser α) (ts : List Token) (a : α) : Prop :=
  ∀ (c : Cursor) (next : Token) (rest : List Token), c.tokens = ts ++ next :: rest → follow next →
    ∃ d, p c = .ok a d ∧ d.tokens = next :: rest

/-- Where some tokens come next, a parser stops for a given cause, whatever comes behind them. -/
def Stops (p : Parser α) (ts : List Token) (cause : SyntaxCause) : Prop :=
  ∀ (c : Cursor) (next : Token) (rest : List Token), c.tokens = ts ++ next :: rest →
    ∃ fault d, p c = .error fault d ∧ fault.cause = cause

/-- Any token may come behind. -/
def AnyToken (_ : Token) : Prop := True

/-! ## Parsers in sequence -/

variable {follow followed : Token → Prop} {p : Parser α} {f : α → Parser β} {a : α} {b : β}
  {t : Token} {ts us : List Token} {cause : SyntaxCause}

theorem Reads.pure : Reads follow (pure a : Parser α) [] a :=
  fun c _ _ h _ => ⟨c, rfl, h⟩

/-- What comes behind some tokens starts with one that satisfies a condition. -/
def Fits (follow followed : Token → Prop) (us : List Token) : Prop :=
  ∀ next rest, followed next → ∃ u more, us ++ next :: rest = u :: more ∧ follow u

theorem fits_anyToken (us : List Token) : Fits AnyToken followed us := by
  intro next rest _
  obtain ⟨u, more, hu⟩ : ∃ u more, us ++ next :: rest = u :: more :=
    List.exists_cons_of_ne_nil (by simp)
  exact ⟨u, more, hu, trivial⟩

theorem fits_of_head? (first : us.head? = some t) (h : follow t) : Fits follow followed us := by
  intro next rest _
  obtain ⟨more, rfl⟩ := List.head?_eq_some_iff.mp first
  exact ⟨t, _, rfl, h⟩

theorem Fits.append {between : Token → Prop} (h : Fits follow between us)
    (h' : Fits between followed ts) : Fits follow followed (us ++ ts) := by
  intro next rest hn
  obtain ⟨t, more, ht, hb⟩ := h' next rest hn
  rw [List.append_assoc, ht]
  exact h t more hb

/-- Behind what one parser reads, the next one goes on. -/
theorem Reads.bind_of_fits (h : Reads follow p ts a) (h' : Reads followed (f a) us b)
    (fits : Fits follow followed us) : Reads followed (p >>= f) (ts ++ us) b := by
  intro c next rest hc hn
  obtain ⟨u, more, hu, hf⟩ := fits next rest hn
  rw [List.append_assoc, hu] at hc
  obtain ⟨d, hd, hdt⟩ := h c u more hc hf
  rw [← hu] at hdt
  obtain ⟨e, he, het⟩ := h' d next rest hdt hn
  exact ⟨e, by rw [bind_ok hd, he], het⟩

theorem Reads.bind (h : Reads AnyToken p ts a) (h' : Reads follow (f a) us b) :
    Reads follow (p >>= f) (ts ++ us) b := h.bind_of_fits h' (fits_anyToken us)

/-- Two parsers in sequence, of which the first looks at the token behind. -/
theorem Reads.bind_cons (h : Reads followed p ts a) (h' : Reads follow (f a) (t :: us) b)
    (fits : followed t) : Reads follow (p >>= f) (ts ++ t :: us) b :=
  h.bind_of_fits h' (fits_of_head? rfl fits)

/-- A parser at the end of another one does not move on. -/
theorem Reads.map (h : Reads follow p ts a) (g : α → β) :
    Reads follow (p >>= fun a => Pure.pure (g a)) ts (g a) := by
  intro c next rest hc hn
  obtain ⟨d, hd, hdt⟩ := h c next rest hc hn
  exact ⟨d, by rw [bind_ok hd]; rfl, hdt⟩

/-- A fault of the first parser is one of both. -/
theorem Stops.bind (h : Stops p ts cause) : Stops (p >>= f) ts cause := by
  intro c next rest hc
  obtain ⟨fault, d, hd, same⟩ := h c next rest hc
  exact ⟨fault, d, bind_error hd, same⟩

/-- What comes behind a fault does not matter. -/
theorem Stops.append (h : Stops p ts cause) : Stops p (ts ++ us) cause := by
  intro c next rest hc
  obtain ⟨u, more, hu⟩ : ∃ u more, us ++ next :: rest = u :: more :=
    List.exists_cons_of_ne_nil (by simp)
  rw [List.append_assoc, hu] at hc
  exact h c u more hc

/-- Behind what one parser reads, the next one stops. -/
theorem Reads.bind_stops_of_fits (h : Reads follow p ts a) (h' : Stops (f a) us cause)
    (fits : Fits follow AnyToken us) : Stops (p >>= f) (ts ++ us) cause := by
  intro c next rest hc
  obtain ⟨u, more, hu, hf⟩ := fits next rest trivial
  rw [List.append_assoc, hu] at hc
  obtain ⟨d, hd, hdt⟩ := h c u more hc hf
  rw [← hu] at hdt
  obtain ⟨fault, e, he, same⟩ := h' d next rest hdt
  exact ⟨fault, e, by rw [bind_ok hd, he], same⟩

theorem Reads.bind_stops (h : Reads AnyToken p ts a) (h' : Stops (f a) us cause) :
    Stops (p >>= f) (ts ++ us) cause := h.bind_stops_of_fits h' (fits_anyToken us)

/-! ## Single tokens -/

/-- Looking at the current token. -/
theorem Reads.token {f : Token → Parser β} (h : Reads follow (f t) (t :: ts) b) :
    Reads follow (token >>= f) (t :: ts) b := by
  intro c next rest hc hn
  have current : Parser.token c = .ok t c := by
    rw [Parser.token, Cursor.token_of_tokens hc]
  rw [bind_ok current]
  exact h c next rest hc hn

theorem Reads.peek {f : Token → Parser β} (first : ts.head? = some t)
    (h : Reads follow (f t) ts b) :
    Reads follow (Parser.token >>= f) ts b := by
  obtain ⟨more, rfl⟩ := List.head?_eq_some_iff.mp first
  exact h.token

/-- Looking at the token that comes behind. -/
theorem Reads.look {f : Token → Parser β} (h : ∀ t, follow t → Reads follow (f t) [] b) :
    Reads follow (Parser.token >>= f) [] b := by
  intro c next rest hc hn
  have current : Parser.token c = .ok next c := by
    rw [Parser.token, Cursor.token_of_tokens hc]
  rw [bind_ok current]
  exact h next hn c next rest hc hn

theorem Stops.token {f : Token → Parser β} (h : Stops (f t) (t :: ts) cause) :
    Stops (token >>= f) (t :: ts) cause := by
  intro c next rest hc
  have current : Parser.token c = .ok t c := by
    rw [Parser.token, Cursor.token_of_tokens hc]
  rw [bind_ok current]
  exact h c next rest hc

theorem Stops.peek {f : Token → Parser β} (first : ts.head? = some t) (h : Stops (f t) ts cause) :
    Stops (Parser.token >>= f) ts cause := by
  obtain ⟨more, rfl⟩ := List.head?_eq_some_iff.mp first
  exact h.token

/-- Looking at the position. -/
theorem Reads.position {f : Position → Parser β} (h : ∀ place, Reads follow (f place) ts b) :
    Reads follow (position >>= f) ts b := by
  intro c next rest hc hn
  exact h c.current.position c next rest hc hn

theorem reads_advance : Reads follow advance [t] () := by
  intro c next rest hc hn
  exact ⟨c.advance, rfl, Cursor.tokens_advance hc⟩

theorem Reads.advance {f : Unit → Parser β} (h : Reads follow (f ()) ts b) :
    Reads follow (advance >>= f) (t :: ts) b :=
  reads_advance.bind h

theorem reads_expect (t : Token) : Reads follow (expect t) [t] () := by
  refine Reads.token ?_
  rw [if_pos rfl]
  exact reads_advance

/-- A given token, and what comes behind it. -/
theorem Reads.expect {f : Unit → Parser β} (h : Reads follow (f ()) ts b) :
    Reads follow (expect t >>= f) (t :: ts) b :=
  (reads_expect t).bind h

theorem get_bind {f : Cursor → Parser β} (c : Cursor) : (get >>= f) c = f c c := rfl

/-! ## Repetition -/

variable {goOn : Cursor → Bool} {item : Parser α} {as : List α}

theorem Reads.foldWhile_once {step : β → Parser β} {b' : β} (h : Reads AnyToken (step b) ts b')
    (nonempty : ts ≠ []) (continues : ∀ (c : Cursor) rest, c.tokens = ts ++ rest → goOn c = true)
    (ends : ∀ (c : Cursor) t rest, c.tokens = t :: rest → followed t → goOn c = false) :
    Reads followed (foldWhile goOn step b) ts b' := by
  intro c next rest hc hn
  obtain ⟨d, hd, hdt⟩ := h c next rest hc trivial
  have moves : d.size < c.size := by
    have before := c.length_tokens
    have after := d.length_tokens
    have positive := List.length_pos_iff.mpr nonempty
    rw [hc, List.length_append] at before
    rw [hdt] at after
    omega
  refine ⟨d, ?_, hdt⟩
  rw [foldWhile_cons (continues c _ hc) hd moves, foldWhile_end (ends d next rest hdt hn)]

theorem Stops.foldWhile {step : β → Parser β} (h : Stops (step b) ts cause)
    (continues : ∀ (c : Cursor) rest, c.tokens = ts ++ rest → goOn c = true) :
    Stops (foldWhile goOn step b) ts cause := by
  intro c next rest hc
  obtain ⟨fault, d, hd, same⟩ := h c next rest hc
  exact ⟨fault, d, foldWhile_stop (continues c _ hc) hd, same⟩

/-- A parser reads each of several values, one behind the other, and repetition goes on in front of
each. -/
inductive ReadsEach (goOn : Cursor → Bool) (follow : Token → Prop) (item : Parser α) :
    List α → List Token → Prop
  | nil : ReadsEach goOn follow item [] []
  | cons {t : Token} {ts us : List Token} {a : α} {as : List α} :
    ts.head? = some t → follow t → Reads follow item ts a →
    (∀ (c : Cursor) rest, c.tokens = ts ++ rest → goOn c = true) →
    ReadsEach goOn follow item as us → ReadsEach goOn follow item (a :: as) (ts ++ us)

/-- The step of a repetition that has gone through some values. -/
private def collect (item : Parser α) (values : List α) : Parser (List α) := do
  return (← item) :: values

/-- One more round of a repetition, where the parser reads something. -/
private theorem foldWhile_collect {c d : Cursor} {values : List α} (more : goOn c = true)
    (h : item c = .ok a d) (moves : d.tokens.length < c.tokens.length) :
    foldWhile goOn (collect item) values c = foldWhile goOn (collect item) (a :: values) d := by
  have step : collect item values c = .ok (a :: values) d := by
    rw [collect, bind_ok h]
    rfl
  rw [Cursor.length_tokens, Cursor.length_tokens] at moves
  exact foldWhile_cons more step (Nat.lt_of_succ_lt_succ moves)

/-- What comes behind a value may come there. -/
theorem ReadsEach.fits (h : ReadsEach goOn follow item as ts)
    (less : ∀ t, followed t → follow t) : Fits follow followed ts := by
  cases h with
  | nil =>
    intro next rest hn
    exact ⟨next, rest, rfl, less next hn⟩
  | cons first fits _ _ _ => exact fits_of_head? (by rw [List.head?_append, first]; rfl) fits

/-- **A repetition goes through all values** that its parser reads. -/
private theorem ReadsEach.foldWhile_eq (h : ReadsEach goOn follow item as ts) :
    ∀ (c : Cursor) (next : Token) (rest : List Token), c.tokens = ts ++ next :: rest →
      follow next → ∃ d : Cursor, d.tokens = next :: rest ∧ ∀ values,
        foldWhile goOn (collect item) values c =
          foldWhile goOn (collect item) (as.reverse ++ values) d := by
  induction h with
  | nil =>
    intro c next rest hc _
    exact ⟨c, hc, fun _ => rfl⟩
  | cons first _ reads continues behind ih =>
    intro c next rest hc hn
    obtain ⟨others, rfl⟩ := List.head?_eq_some_iff.mp first
    obtain ⟨u, more, hu, hf⟩ := behind.fits (fun _ h => h) next rest hn
    rw [List.append_assoc, hu] at hc
    obtain ⟨d, hd, hdt⟩ := reads c u more hc hf
    obtain ⟨e, het, he⟩ := ih d next rest (by rw [hdt, hu]) hn
    refine ⟨e, het, fun values => ?_⟩
    have moves : d.tokens.length < c.tokens.length := by
      rw [hdt, hc]
      simp only [List.length_append, List.length_cons]
      omega
    rw [foldWhile_collect (continues c _ hc) hd moves, he, List.reverse_cons, List.append_assoc]
    rfl

/-- Repeating a parser reads all values, up to where repetition ends. -/
theorem ReadsEach.reads_repeatWhile (h : ReadsEach goOn follow item as ts)
    (fits : ∀ t, followed t → follow t)
    (ends : ∀ (c : Cursor) t rest, c.tokens = t :: rest → followed t → goOn c = false) :
    Reads followed (repeatWhile goOn item) ts as := by
  intro c next rest hc hn
  obtain ⟨d, hd, folded⟩ := h.foldWhile_eq c next rest hc (fits next hn)
  refine ⟨d, ?_, hd⟩
  have all : foldWhile goOn (collect item) [] c = .ok (as.reverse ++ []) d := by
    rw [folded, foldWhile_end (ends d next rest hd hn)]
  change (foldWhile goOn (collect item) [] >>= fun values => Pure.pure values.reverse) c = _
  rw [bind_ok all, List.append_nil, List.reverse_reverse]
  rfl

/-- A fault of the parser behind some values ends the repetition. -/
theorem ReadsEach.stops_repeatWhile (h : ReadsEach goOn follow item as ts)
    (first : us.head? = some t) (fits : follow t) (stops : Stops item us cause)
    (continues : ∀ (c : Cursor) rest, c.tokens = us ++ rest → goOn c = true) :
    Stops (repeatWhile goOn item) (ts ++ us) cause := by
  intro c next rest hc
  obtain ⟨others, rfl⟩ := List.head?_eq_some_iff.mp first
  rw [List.append_assoc] at hc
  obtain ⟨d, hd, folded⟩ := h.foldWhile_eq c t (others ++ next :: rest) hc fits
  obtain ⟨fault, e, he, same⟩ := stops d next rest hd
  refine ⟨fault, e, ?_, same⟩
  have all : foldWhile goOn (collect item) [] c = .error fault e := by
    have step : collect item (as.reverse ++ []) d = .error fault e := bind_error he
    rw [folded, foldWhile_stop (continues d _ hd) step]
  change (foldWhile goOn (collect item) [] >>= fun values => Pure.pure values.reverse) c = _
  rw [bind_error all]

theorem reads_words (phrase first : String) (more : List String) :
    Reads (· ≠ .colon) (reference phrase)
      (.word first :: more.flatMap fun w => [.colon, .word w])
      (":".intercalate (first :: more)) := by
  have one (w : String) : Reads AnyToken (segment phrase) [.colon, .word w] w :=
    Reads.advance (Reads.token (Reads.advance Reads.pure))
  have each : ReadsEach (fun c => c.token = .colon) AnyToken (segment phrase) more
      (more.flatMap fun w => [.colon, .word w]) := by
    induction more with
    | nil => exact .nil
    | cons w more ih =>
      refine .cons rfl trivial (one w) (fun c rest hc => ?_) ih
      exact decide_eq_true (Cursor.token_of_tokens hc)
  have repeated : Reads (· ≠ .colon) (repeatWhile (fun c => c.token = .colon) (segment phrase))
      (more.flatMap fun w => [.colon, .word w]) more := by
    refine each.reads_repeatWhile (fun _ _ => trivial) fun c t rest hc ht => ?_
    rw [Cursor.token_of_tokens hc]
    exact decide_eq_false ht
  exact Reads.token (Reads.advance (repeated.map fun more => ":".intercalate (first :: more)))

end Parser

end Compliance
