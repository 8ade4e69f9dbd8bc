import Compliance.Proofs.Token.Inserted
import Compliance.Proofs.Token.Lexeme
import Mathlib.Data.List.Induction

/-!
# Where tokens stand

A text is its tokens with white space and comments between.  The place of a token is
kept while the text is passed character by character, through comments of several lines
and escapes too, and it always comes to what one counts in the text in front: the line
feeds, and the characters behind the last of them.  So it is with the end of the text,
and with the element at which scanning stops.

## Main definitions

* `Position.counted front` — the place behind some characters, counted in them.
* `Passed cs` — white space and comments.
* `Laid front tokens` — the tokens of the text in front of a place, where they stand.
* `LexicalFault.Shows fault back` — what is wrong with the text from a place on.
* `Token.positions_counted` — where the tokens of a text stand, and where scanning stops.
-/

namespace Compliance

open Text

/-! ## Counted places -/

namespace Position

/-- The place behind some characters at the start of a text: one line more than there are line
feeds, and one column more than there are characters behind the last line feed. -/
def counted (front : List Char) : Position :=
  ⟨front.count '\n' + 1, (front.reverse.takeWhile (· ≠ '\n')).length + 1⟩

theorem counted_concat (front : List Char) (c : Char) :
    counted (front ++ [c]) = (counted front).advance c := by
  by_cases feed : c = '\n'
  · subst feed
    simp [counted, advance]
  · simp [counted, advance, feed]

/-- **The place that is kept is the one that is counted.** -/
theorem after_start (front : List Char) : start.after front = counted front := by
  induction front using List.reverseRecOn with
  | nil => rfl
  | append_singleton front c ih =>
    rw [after_append, ih, counted_concat]
    rfl

theorem counted_append (front cs : List Char) :
    counted (front ++ cs) = (counted front).after cs := by
  rw [← after_start, ← after_start, after_append]

end Position

/-! ## White space and comments -/

/-- What stands between tokens: a blank, a comment in a line, or a comment up to its closing
sign. -/
inductive Passed : List Char → Prop
  | blank {c : Char} : isBlank c = true → Passed [c]
  | line {body : List Char} : '\n' ∉ body → Passed ('/' :: '/' :: body)
  | block {body : List Char} : ¬ ['*', '/'] <:+: body → Passed ('/' :: '*' :: (body ++ ['*', '/']))

/-- A block comment is closed by the first closing sign. -/
theorem exists_body {cs : List Char} {width : Nat} (h : commentWidth cs = some width) :
    ∃ body, ¬ ['*', '/'] <:+: body ∧ cs.take width = body ++ ['*', '/'] := by
  fun_induction commentWidth cs generalizing width with
  | case1 => cases h
  | case2 rest =>
    cases h
    exact ⟨[], by simp, rfl⟩
  | case3 c rest other ih =>
    obtain ⟨inner, behind, rfl⟩ := Option.map_eq_some_iff.mp h
    obtain ⟨body, closed, taken⟩ := ih behind
    refine ⟨c :: body, fun inside => ?_, by rw [List.take_succ_cons, taken, List.cons_append]⟩
    rcases List.infix_cons_iff.mp inside with ⟨more, here⟩ | later
    · obtain ⟨rfl, rest'⟩ := List.cons.inj here
      obtain ⟨left, split⟩ : ∃ left, rest = '/' :: left := by
        have split := List.take_append_drop inner rest
        rw [taken, ← rest'] at split
        exact ⟨_, split.symm⟩
      exact other left rfl split
    · exact closed later

/-- No closing sign is to be found behind the opening one. -/
theorem not_closed {cs : List Char} (h : commentWidth cs = none) : ¬ ['*', '/'] <:+: cs := by
  fun_induction commentWidth cs with
  | case1 => simp
  | case2 => cases h
  | case3 c rest other ih =>
    intro inside
    rcases List.infix_cons_iff.mp inside with ⟨more, here⟩ | later
    · obtain ⟨rfl, rfl⟩ := List.cons.inj here
      exact other more rfl rfl
    · exact ih (by simpa using h) later

section

variable {c : Char} {rest : List Char} {found : Element} {fault : LexicalFault}

/-- **An element that is no token is passed over.** -/
theorem passed_of_element (h : element c rest = .ok found) (ht : found.token = none) :
    Passed (c :: rest.take found.extra) := by
  cases first_of_element h with
  | lineComment slash second =>
    subst slash
    obtain ⟨body, rfl⟩ := List.head?_eq_some_iff.mp second
    have taken : ('/' :: body).take (('/' :: body).takeWhile (· ≠ '\n')).length =
        '/' :: body.takeWhile (· ≠ '\n') := by
      simp [take_length_takeWhile]
    rw [taken]
    refine .line fun feed => ?_
    simpa using List.all_eq_true.mp List.all_takeWhile _ feed
  | blockComment slash second closed =>
    subst slash
    obtain ⟨inner, rfl⟩ := List.head?_eq_some_iff.mp second
    obtain ⟨body, once, taken⟩ := exists_body closed
    rw [List.tail_cons] at taken
    rw [List.take_succ_cons, taken]
    exact .block once
  | blank blank => exact .blank blank
  | number _ number =>
    rcases number_cases number with ⟨_, int⟩ | ⟨_, _, -, float⟩
    · cases ht.symm.trans int
    · cases ht.symm.trans float
  | quoted | sign | word => cases ht

end

/-! ## Faults -/

/-- Where a quoted text breaks off. -/
def Text.QuoteFault.Breaks : QuoteFault → List Char → Prop
  | .unterminated, rest => rest = [] ∨ ∃ more, rest = '\n' :: more
  | .danglingEscape, rest => rest = ['\\']

/-- What is wrong with a text from a place on.  A comment is not closed, or a string not before its
line ends, or the text ends behind a backslash in it; digits are too large a number; or a character
stands there that begins neither a token nor anything that is passed over. -/
def LexicalFault.Shows (fault : LexicalFault) (back : List Char) : Prop :=
  match fault with
  | .unterminatedComment => ∃ body, back = '/' :: '*' :: body ∧ ¬ ['*', '/'] <:+: body
  | .unterminatedString => ∃ inner content rest, back = '"' :: inner ++ rest ∧
      Inside inner content ∧ QuoteFault.unterminated.Breaks rest
  | .unterminatedEscape => ∃ inner content rest, back = '"' :: inner ++ rest ∧
      Inside inner content ∧ QuoteFault.danglingEscape.Breaks rest
  | .integer text => ∃ (negative : Bool) (digits rest : List Char), back = text.toList ++ rest ∧
      text.toList = (if negative then ['-'] else []) ++ digits ∧ digits ≠ [] ∧
      digits.all Char.isDigit = true ∧ ∀ value : Int64,
        value.toInt ≠ (if negative then -(readNat digits : Int) else readNat digits)
  | .character c => ∃ rest, back = c :: rest ∧
      (∀ cs, Passed cs → ¬ cs <+: back) ∧ ∀ t cs, Token.Written t cs → ¬ cs <+: back

section

variable {c : Char} {rest : List Char} {fault : LexicalFault}

/-- A quoted text that does not end is something that may stand between quotes, and the end of a
line or of the text, or a backslash at the end of the text. -/
theorem shows_of_readQuoted {cs : List Char} {fault : QuoteFault}
    (h : readQuoted cs = .error fault) :
    ∃ inner content rest, cs = inner ++ rest ∧ Inside inner content ∧
      fault.Breaks rest := by
  fun_induction readQuoted cs generalizing fault with
  | case1 =>
    cases h
    exact ⟨[], [], [], rfl, .nil, .inl rfl⟩
  | case2 more =>
    cases h
    exact ⟨[], [], _, rfl, .nil, .inr ⟨more, rfl⟩⟩
  | case3 | case5 | case7 => cases h
  | case4 =>
    cases h
    exact ⟨[], [], _, rfl, .nil, rfl⟩
  | case6 c rest fault' stops ih =>
    cases h
    obtain ⟨inner, content, behind, rfl, inside, shows'⟩ := ih stops
    exact ⟨_, _, behind, rfl, inside.escape, shows'⟩
  | case8 c rest line quote dangling escape fault' stops ih =>
    cases h
    obtain ⟨inner, content, behind, rfl, inside, shows'⟩ := ih stops
    have noEscape : c ≠ '\\' := by
      rintro rfl
      cases rest : inner ++ behind with
      | nil => exact dangling rfl rest
      | cons d more => exact escape d more rfl rest
    exact ⟨_, _, behind, rfl, inside.plain quote noEscape line, shows'⟩

/-- Digits that are no integer of 64 bits are too large a number. -/
theorem shows_of_integer (starts : startsNumber c rest = true)
    (h : number c rest = .error fault) : fault.Shows (c :: rest) := by
  obtain ⟨negative, digits, nonempty, all, parts⟩ := exists_whole starts
  have notFraction : ∀ d more, rest.drop (rest.takeWhile Char.isDigit).length =
      '.' :: d :: more → d.isDigit = false := fun d more behind => by
    rw [← Bool.not_eq_true]
    intro digit
    rw [number_of_fraction behind digit] at h
    cases h
  rw [number_of_whole notFraction, number.integer] at h
  split at h
  · cases h
  · next unread =>
    cases h
    have whole : c :: rest = (c :: rest.takeWhile Char.isDigit) ++ rest.dropWhile Char.isDigit := by
      rw [List.cons_append, List.takeWhile_append_dropWhile]
    refine ⟨negative, digits, rest.dropWhile Char.isDigit, ?_, ?_, nonempty, all, ?_⟩
    · rw [String.toList_ofList]
      exact whole
    · rw [String.toList_ofList]
      exact parts
    · intro value same
      rw [parts] at unread
      rw [(readInt64_eq_some_iff nonempty all).mpr same] at unread
      cases unread

/-- A number starts where digits with a sign or without are written. -/
theorem startsNumber_signed {negative : Bool} {digits more : List Char} (nonempty : digits ≠ [])
    (all : digits.all Char.isDigit = true)
    (h : (if negative then ['-'] else []) ++ digits ++ more <+: c :: rest) :
    startsNumber c rest = true := by
  obtain ⟨d, others, rfl⟩ := List.exists_cons_of_ne_nil nonempty
  rw [List.all_cons, Bool.and_eq_true] at all
  obtain ⟨left, here⟩ := h
  cases negative with
  | false =>
    obtain ⟨rfl, -⟩ := List.cons.inj here
    simp [startsNumber, all.1]
  | true =>
    obtain ⟨rfl, rfl⟩ := List.cons.inj here
    simp [startsNumber, all.1]

theorem sign_ne_none {t : Token} (fixed : t.isSign = true) (h : t.text.toList <+: c :: rest) :
    sign c rest ≠ none := by
  obtain ⟨left, here⟩ := h
  cases t with
  | word | string | int | float | eof => cases fixed
  | assign | less | greater =>
    simp only [Token.text, String.reduceToList, List.singleton_append, List.cons.injEq] at here
    obtain ⟨rfl, rfl⟩ := here
    simp only [sign]
    split <;> simp
  | _ =>
    simp only [Token.text, String.reduceToList, List.cons_append, List.nil_append,
      List.cons.injEq] at here
    obtain ⟨rfl, rfl⟩ := here
    simp [sign]

/-- What begins neither a comment nor a token, and is not blank, begins nothing. -/
theorem shows_of_character (noComment : ¬ (c = '/' ∧ rest.head? = some '/'))
    (noBlock : ¬ (c = '/' ∧ rest.head? = some '*')) (noBlank : ¬ isBlank c = true)
    (noQuote : c ≠ '"') (noNumber : ¬ startsNumber c rest = true) (noSign : sign c rest = none)
    (noWord : ¬ isWordStart c = true) : LexicalFault.Shows (.character c) (c :: rest) := by
  refine ⟨rest, rfl, ?_, ?_⟩
  · rintro cs (blank | _ | _) ⟨more, here⟩
    · obtain ⟨rfl, -⟩ := List.cons.inj here
      exact noBlank blank
    · obtain ⟨rfl, rfl⟩ := List.cons.inj here
      exact noComment ⟨rfl, rfl⟩
    · obtain ⟨rfl, rfl⟩ := List.cons.inj here
      exact noBlock ⟨rfl, rfl⟩
  · intro t cs written here
    cases written with
    | @word text whole =>
      rw [isWord] at whole
      split at whole
      · cases whole
      · next d more chars =>
        rw [chars] at here
        obtain ⟨rfl, -⟩ := List.cons_prefix_cons.mp here
        rw [Bool.and_eq_true] at whole
        exact noWord whole.1
    | string =>
      obtain ⟨rfl, -⟩ := List.cons_prefix_cons.mp here
      exact noQuote rfl
    | @int _ negative digits nonempty all =>
      have starts : (if negative then ['-'] else []) ++ digits ++ [] <+: c :: rest := by
        rwa [List.append_nil]
      exact noNumber (startsNumber_signed nonempty all starts)
    | float _ parts =>
      rw [parts.text_eq, String.toList_ofList] at here
      exact noNumber (startsNumber_signed parts.whole_ne parts.whole_digits here)
    | sign fixed => exact sign_ne_none fixed here noSign

/-- **Where an element is faulty its fault shows**, from its first character on. -/
theorem shows_of_element (h : element c rest = .error fault) : fault.Shows (c :: rest) := by
  unfold element at h
  split at h
  · cases h
  · next noComment =>
    split at h
    · next opening =>
      split at h
      · cases h
      · next unclosed =>
        cases h
        obtain ⟨rfl, second⟩ := opening
        obtain ⟨body, rfl⟩ := List.head?_eq_some_iff.mp second
        exact ⟨body, rfl, not_closed unclosed⟩
    · next noBlock =>
      split at h
      · cases h
      · next noBlank =>
        split at h
        · next quoted =>
          subst quoted
          split at h
          · cases h
          · next stops =>
            cases h
            obtain ⟨inner, content, behind, rfl, inside, breaks⟩ := shows_of_readQuoted stops
            exact ⟨inner, content, behind, rfl, inside, breaks⟩
          · next stops =>
            cases h
            obtain ⟨inner, content, behind, rfl, inside, breaks⟩ := shows_of_readQuoted stops
            exact ⟨inner, content, behind, rfl, inside, breaks⟩
        · next noQuote =>
          split at h
          · next starts => exact shows_of_integer starts h
          · next noNumber =>
            split at h
            · cases h
            · next noSign =>
              split at h
              · cases h
              · next noWord =>
                cases h
                exact shows_of_character noComment noBlock noBlank noQuote noNumber noSign noWord

end

/-! ## Texts -/

/-- The tokens in the part of a text in front of a place.  Between them there is what is passed
over, each is written with characters of its own, and it stands where the first of these does. -/
inductive Laid : List Char → List Placed → Prop
  | start : Laid [] []
  | passed {front cs : List Char} {tokens : List Placed} : Laid front tokens → Passed cs →
      Laid (front ++ cs) tokens
  | token {front cs : List Char} {tokens : List Placed} {t : Token} : Laid front tokens →
      t.Written cs → Laid (front ++ cs) (tokens ++ [⟨t, Position.counted front⟩])

namespace Laid

variable {front : List Char} {tokens : List Placed}

/-- One element more. -/
theorem element (h : Laid front tokens) {c : Char} {rest : List Char} {found : Element}
    (read : element c rest = .ok found) : Laid (front ++ c :: rest.take found.extra)
      (tokens ++ (found.token.map (Placed.mk · (Position.counted front))).toList) := by
  cases ht : found.token with
  | none =>
    rw [Option.map_none, Option.toList_none, List.append_nil]
    exact h.passed (passed_of_element read ht)
  | some t => exact h.token (written_of_element read ht)

theorem exists_written (h : Laid front tokens) : ∀ t ∈ tokens, ∃ before cs behind,
    front = before ++ cs ++ behind ∧ t.position = Position.counted before ∧ t.token.Written cs := by
  induction h with
  | start => simp
  | @passed front cs tokens _ _ ih =>
    intro t ht
    obtain ⟨before, own, behind, rfl, place, written⟩ := ih t ht
    exact ⟨before, own, behind ++ cs, by simp, place, written⟩
  | @token front cs tokens t _ written ih =>
    intro u hu
    rcases List.mem_append.mp hu with hu | hu
    · obtain ⟨before, own, behind, rfl, place, written⟩ := ih u hu
      exact ⟨before, own, behind ++ cs, by simp, place, written⟩
    · obtain rfl := List.mem_singleton.mp hu
      exact ⟨front, cs, [], by simp, rfl, written⟩

theorem before_counted (h : Laid front tokens) (more : List Char) :
    ∀ t ∈ tokens, t.position.Before (Position.counted (front ++ more)) := by
  intro t ht
  obtain ⟨before, cs, behind, rfl, place, written⟩ := h.exists_written t ht
  rw [place, List.append_assoc, List.append_assoc, Position.counted_append]
  exact Position.before_after _ (by simp [written.ne_nil])

/-- **The tokens stand in order.** -/
theorem pairwise_before (h : Laid front tokens) :
    tokens.Pairwise fun t u => t.position.Before u.position := by
  induction h with
  | start => exact .nil
  | passed _ _ ih => exact ih
  | @token front cs tokens t laid _ ih =>
    refine List.pairwise_append.mpr ⟨ih, List.pairwise_singleton _ _, fun u hu v hv => ?_⟩
    obtain rfl := List.mem_singleton.mp hv
    simpa using laid.before_counted [] u hu

theorem pairwise_before_end (h : Laid front tokens) (last : Token) :
    (tokens ++ [(⟨last, Position.counted front⟩ : Placed)]).Pairwise fun t u =>
      t.position.Before u.position := by
  refine List.pairwise_append.mpr ⟨h.pairwise_before, List.pairwise_singleton _ _, ?_⟩
  intro t ht u hu
  obtain rfl := List.mem_singleton.mp hu
  simpa using h.before_counted [] t ht

theorem token_ne_eof (h : Laid front tokens) : ∀ t ∈ tokens, t.token ≠ .eof := by
  intro t ht eof
  obtain ⟨_, _, _, -, -, written⟩ := h.exists_written t ht
  exact absurd written.formed (by simp [eof, Token.Formed])

end Laid

namespace Token

variable {front cs : List Char} {position : Position} {tokens placed : List Placed}

private theorem after_counted {c : Char} {rest : List Char} (n : Nat)
    (here : position = Position.counted front) :
    position.after (c :: rest.take n) = Position.counted (front ++ c :: rest.take n) := by
  rw [here, Position.counted_append]

/-- What is in front of the rest of a text behind an element. -/
private theorem append_element (front : List Char) (c : Char) (rest : List Char) (n : Nat) :
    front ++ c :: rest.take n ++ rest.drop n = front ++ c :: rest := by
  rw [List.append_assoc, List.cons_append, List.take_append_drop]

/-- **The tokens behind a place are laid on**, up to the end of the text, which is the last. -/
theorem laid_of_scanFrom (h : Laid front tokens) (here : position = Position.counted front)
    (scanned : scanFrom position cs = .ok placed) :
    ∃ others, placed = others ++ [⟨.eof, Position.counted (front ++ cs)⟩] ∧
      Laid (front ++ cs) (tokens ++ others) := by
  fun_induction scanFrom position cs generalizing front tokens placed with
  | case1 position =>
    cases scanned
    refine ⟨[], ?_, ?_⟩
    · rw [List.append_nil, here]
      rfl
    · rwa [List.append_nil, List.append_nil]
  | case2 | case3 => cases scanned
  | case4 position c rest found read others rest' token isToken ih =>
    cases scanned
    have laid := h.element read
    rw [isToken, ← here] at laid
    obtain ⟨more, rfl, laid'⟩ := ih laid (after_counted _ here) rest'
    rw [append_element] at laid' ⊢
    exact ⟨⟨token, position⟩ :: more, rfl, by simpa using laid'⟩
  | case5 position c rest found read others rest' isGap ih =>
    cases scanned
    have laid := h.element read
    rw [isGap, Option.map_none, Option.toList_none, List.append_nil] at laid
    obtain ⟨more, rfl, laid'⟩ := ih laid (after_counted _ here) rest'
    rw [append_element] at laid' ⊢
    exact ⟨more, rfl, laid'⟩

/-- **Scanning stops at a fault that shows**, behind whole elements. -/
theorem shows_of_scanFrom {error : LexicalError} (h : Laid front tokens)
    (here : position = Position.counted front) (scanned : scanFrom position cs = .error error) :
    ∃ before others back, front ++ cs = before ++ back ∧ Laid before others ∧
      error.position = Position.counted before ∧ error.fault.Shows back := by
  fun_induction scanFrom position cs generalizing front tokens error with
  | case1 | case4 | case5 => cases scanned
  | case2 position c rest fault stops =>
    cases scanned
    exact ⟨front, tokens, c :: rest, rfl, h, here, shows_of_element stops⟩
  | case3 position c rest found read error' stops ih =>
    cases scanned
    obtain ⟨before, others, back, whole, shows'⟩ :=
      ih (h.element read) (after_counted _ here) stops
    rw [append_element] at whole
    exact ⟨before, others, back, whole, shows'⟩

/-- **Each token of a text stands behind the one before it.** -/
theorem pairwise_before_of_scan {source : String} (scanned : scan source = .ok placed) :
    placed.Pairwise fun t u => t.position.Before u.position := by
  obtain ⟨others, rfl, laid⟩ := laid_of_scanFrom .start rfl scanned
  exact laid.pairwise_before_end .eof

/-- **Tokens stand where they are counted to stand.**  A text that has tokens is white space,
comments and what its tokens are written with, each token at the place of its first character: the
line is one more than there are line feeds in front, the column one more than there are characters
in front in that line.  Each token stands behind the one before it, and the last is the end of the
text, behind its last character, and is found only there.  In a text that has none there is such a
part in front, and the error stands at the first character behind it, from which on its fault
shows. -/
theorem positions_counted (source : String) :
    match scan source with
    | .ok tokens => ∃ others, tokens = others ++ [⟨.eof, Position.counted source.toList⟩] ∧
        Laid source.toList others ∧ (∀ t ∈ others, t.token ≠ .eof ∧ ∃ front cs back,
          source.toList = front ++ cs ++ back ∧ t.position = Position.counted front ∧
            t.token.Written cs) ∧
        tokens.Pairwise fun t u => t.position.Before u.position
    | .error error => ∃ front others back, source.toList = front ++ back ∧ Laid front others ∧
        error.position = Position.counted front ∧ error.fault.Shows back := by
  cases scanned : scan source with
  | ok tokens =>
    obtain ⟨others, rfl, laid⟩ := laid_of_scanFrom .start rfl scanned
    refine ⟨others, rfl, laid, fun t ht => ⟨laid.token_ne_eof t ht, laid.exists_written t ht⟩, ?_⟩
    exact laid.pairwise_before_end .eof
  | error error => exact shows_of_scanFrom .start rfl scanned

end Token

end Compliance
