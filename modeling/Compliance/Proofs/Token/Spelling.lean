import Compliance.Proofs.Text.Plain
import Compliance.Token.Lexer

/-!
# Spelling tokens

What a text spells does not depend on where it stands, and on what follows it
only by the next character.  Texts can therefore be put together from pieces, and
the tokens are those of the pieces in order.

## Main definitions

* `Spells follow cs tokens` — in front of any text with `follow`, `cs` has these tokens.
* `Spells.append` — pieces are put together.
* `Separate rest` — no word or number goes on into `rest`.
* `element_eq_ok_iff` — what a text starts with says what its first element is.
* `spells_word`, `spells_quoted`, `spells_int`, `spells_float`, `spells_blank` — the pieces.
* `spells_words` — words with colons between.
* `Token.scan_of_spells` — the tokens of a whole text.
-/

namespace Compliance

open Text

/-- In front of any text that satisfies a condition, some characters have the given tokens,
wherever they stand. -/
def Spells (follow : List Char → Prop) (cs : List Char) (tokens : List Token) : Prop :=
  ∀ rest, follow rest → ∀ p, ∃ placed : List Placed, placed.map Placed.token = tokens ∧
    Token.scanFrom p (cs ++ rest) = (Token.scanFrom (p.after cs) rest).map (placed ++ ·)

namespace Spells

variable {follow followed : List Char → Prop} {cs ds : List Char} {ts us : List Token}

/-- Nothing spells nothing. -/
theorem nil : Spells follow [] [] := by
  intro rest _ p
  refine ⟨[], rfl, ?_⟩
  have same : p.after [] = p := rfl
  rw [List.nil_append, same]
  cases Token.scanFrom p rest <;> rfl

/-- Two pieces of a text have the tokens of both, if the second may follow the first. -/
theorem append (h : Spells follow cs ts) (h' : Spells followed ds us)
    (fits : ∀ rest, followed rest → follow (ds ++ rest)) :
    Spells followed (cs ++ ds) (ts ++ us) := by
  intro rest hr p
  obtain ⟨front, hf, scanned⟩ := h (ds ++ rest) (fits rest hr) p
  obtain ⟨back, hb, scanned'⟩ := h' rest hr (p.after cs)
  refine ⟨front ++ back, by rw [List.map_append, hf, hb], ?_⟩
  rw [List.append_assoc, scanned, scanned', Position.after_append]
  cases Token.scanFrom ((p.after cs).after ds) rest with
  | error e => rfl
  | ok placed => simp only [Except.map, List.append_assoc]

/-- A piece that may stand anywhere may stand in front of some texts. -/
theorem weaken (h : Spells follow cs ts) (less : ∀ rest, followed rest → follow rest) :
    Spells followed cs ts := fun rest hr => h rest (less rest hr)

end Spells

theorem spells_of_element {follow : List Char → Prop} {c : Char} {cs : List Char}
    (token : Option Token)
    (h : ∀ rest, follow rest → element c (cs ++ rest) = .ok ⟨token, cs.length⟩) :
    Spells follow (c :: cs) token.toList := by
  intro rest hr p
  refine ⟨token.toList.map (⟨·, p⟩), by cases token <;> rfl, ?_⟩
  have taken : (cs ++ rest).take cs.length = cs := List.take_left
  have left : (cs ++ rest).drop cs.length = rest := List.drop_left
  rw [List.cons_append, Token.scanFrom, h rest hr]
  simp only [taken, left]
  cases Token.scanFrom (p.after (c :: cs)) rest with
  | error e => rfl
  | ok placed => cases token <;> rfl

/-- **The tokens of a whole text** are those that it spells, and its end. -/
theorem Token.scan_of_spells {follow : List Char → Prop} {source : String} {ts : List Token}
    (h : Spells follow source.toList ts) (hnil : follow []) :
    ∃ placed, scan source = .ok placed ∧ placed.map Placed.token = ts ++ [.eof] := by
  obtain ⟨placed, hp, scanned⟩ := h [] hnil Position.start
  refine ⟨placed ++ [⟨.eof, Position.start.after source.toList⟩], ?_, ?_⟩
  · rw [List.append_nil] at scanned
    rw [scan, scanned, scanFrom]
    rfl
  · rw [List.map_append, hp]
    rfl

/-! ## Where words and numbers end -/

/-- The characters that no word, number or sign goes on with. -/
def isSeparator (c : Char) : Bool := isBlank c || c = ',' || c = ':' || c = '[' || c = ']'

/-- What follows begins with a separator, if there is anything. -/
def Separate (rest : List Char) : Prop := ∀ c, rest.head? = some c → isSeparator c = true

/-- Anything may follow. -/
def Anything (_ : List Char) : Prop := True

theorem separate_nil : Separate [] := by
  simp [Separate]

theorem separate_cons {c : Char} (cs : List Char) (h : isSeparator c = true) :
    Separate (c :: cs) := by
  rintro d ⟨rfl⟩
  exact h

theorem separate_of_isBlank {c : Char} (cs : List Char) (h : isBlank c = true) :
    Separate (c :: cs) := separate_cons cs (by simp [isSeparator, h])

/-- No blank is a letter, a numeral, or one of the signs that words and numbers have. -/
private theorem blank_table :
    blankRanges.all (fun (low, high) => (List.range' low (high + 1 - low)).all fun n =>
      !inRanges letterRanges n && !inRanges numeralRanges n &&
        !(45 ≤ n && n ≤ 57) && n != 61 && n != 95) = true := by
  decide +kernel

theorem not_of_isBlank {c : Char} (h : isBlank c = true) :
    isWordPart c = false ∧ c.isDigit = false ∧ c ≠ '-' ∧ c ≠ '.' ∧ c ≠ '/' ∧ c ≠ '=' := by
  simp only [isBlank, List.any_eq_true, Bool.and_eq_true, decide_eq_true_eq] at h
  obtain ⟨⟨low, high⟩, hr, above, below⟩ := h
  have table := List.all_eq_true.mp (List.all_eq_true.mp blank_table _ hr) c.toNat
    (List.mem_range'_1.mpr (by simp only at above below ⊢; omega))
  simp only [Bool.and_eq_true, Bool.not_eq_true', Bool.and_eq_false_iff,
    decide_eq_false_iff_not, bne_iff_ne, ne_eq] at table
  obtain ⟨⟨⟨⟨letter, numeral⟩, run⟩, equal⟩, underscore⟩ := table
  have other : ∀ d : Char, c.toNat ≠ d.toNat → c ≠ d := by
    intro d hd hc
    exact hd (congrArg _ hc)
  refine ⟨?_, ?_, other _ ?_, other _ ?_, other _ ?_, other _ ?_⟩
  · have dash : c ≠ '-' := other _ (by simp only [Char.reduceToNat]; omega)
    have low : c ≠ '_' := other _ underscore
    simp only [isWordPart, isLetter, isNumeral, letter, numeral, dash, low, decide_false,
      Bool.or_self]
  · rw [Bool.eq_false_iff]
    intro digit
    have plain := isPlain_of_isDigit digit
    simp only [Char.isDigit, Bool.and_eq_true, decide_eq_true_eq, ge_iff_le,
      UInt32.le_iff_toNat_le] at digit
    have low' : 48 ≤ c.toNat := digit.1
    have high' : c.toNat ≤ 57 := digit.2
    omega
  all_goals simp only [Char.reduceToNat]; omega

/-- No word, number or sign goes on with a separator. -/
theorem not_of_isSeparator {c : Char} (h : isSeparator c = true) :
    isWordPart c = false ∧ c.isDigit = false ∧ c ≠ '.' ∧ c ≠ '=' := by
  simp only [isSeparator, Bool.or_eq_true, decide_eq_true_eq] at h
  rcases h with (((h | rfl) | rfl) | rfl) | rfl
  · obtain ⟨part, digit, -, point, -, equal⟩ := not_of_isBlank h
    exact ⟨part, digit, point, equal⟩
  all_goals decide +kernel

theorem Separate.stopsAt {rest : List Char} (h : Separate rest) : StopsAt isWordPart rest :=
  fun c hc => (not_of_isSeparator (h c hc)).1

/-! ## Words -/

theorem isWordPart_of_isWordStart {c : Char} (h : isWordStart c = true) :
    isWordPart c = true := by
  simp only [isWordStart, Bool.or_eq_true, decide_eq_true_eq] at h
  rcases h with h | rfl
  · simp [isWordPart, h]
  · rfl

private theorem isDigit_of_isWordStart {c : Char} (h : isWordStart c = true) :
    c.isDigit = false := by
  rw [Bool.eq_false_iff]
  intro digit
  have digits : ((List.range' 48 10).all fun n => !inRanges letterRanges n && n != 95) = true := by
    decide +kernel
  simp only [Char.isDigit, Bool.and_eq_true, decide_eq_true_eq, ge_iff_le,
    UInt32.le_iff_toNat_le] at digit
  have low : 48 ≤ c.toNat := digit.1
  have high : c.toNat ≤ 57 := digit.2
  have excluded := List.all_eq_true.mp digits c.toNat (List.mem_range'_1.mpr (by omega))
  simp only [Bool.and_eq_true, Bool.not_eq_true', bne_iff_ne] at excluded
  simp only [isWordStart, isLetter, excluded.1, Bool.false_or, decide_eq_true_eq] at h
  exact excluded.2 (congrArg Char.toNat h)

/-- No character that a word starts with starts anything else. -/
theorem not_of_isWordStart {c : Char} (h : isWordStart c = true) (rest : List Char) :
    c ≠ '/' ∧ isBlank c = false ∧ c ≠ '"' ∧ startsNumber c rest = false ∧ sign c rest = none := by
  have other : ∀ d : Char, isWordStart d = false → c ≠ d := by
    rintro d hd rfl
    rw [h] at hd
    cases hd
  have noDash : c ≠ '-' := other _ (by decide +kernel)
  have noDigit := isDigit_of_isWordStart h
  have noSlash : c ≠ '/' := other _ (by decide +kernel)
  have noQuote : c ≠ '"' := other _ (by decide +kernel)
  clear other
  refine ⟨noSlash, ?_, noQuote, ?_, ?_⟩
  · rw [Bool.eq_false_iff]
    intro blank
    have part := isWordPart_of_isWordStart h
    rw [(not_of_isBlank blank).1] at part
    cases part
  · simp only [startsNumber, noDigit, noDash, decide_false, Bool.false_and,
      Bool.or_self]
  · clear noDash noDigit noSlash noQuote
    revert h
    simp only [sign]
    split <;> intro h <;> first | rfl | exact absurd h (by decide +kernel)

/-! ## First elements -/

private theorem not_of_isDigit {c : Char} (h : c.isDigit = true) :
    c ≠ '/' ∧ isBlank c = false ∧ c ≠ '"' := by
  have other : ∀ d : Char, d.isDigit = false → c ≠ d := by
    rintro d hd rfl
    rw [h] at hd
    cases hd
  exact ⟨other _ rfl, isBlank_of_isPlain (isPlain_of_isDigit h), other _ rfl⟩

private theorem not_of_startsNumber {c : Char} {rest : List Char}
    (h : startsNumber c rest = true) : c ≠ '/' ∧ isBlank c = false ∧ c ≠ '"' := by
  rw [startsNumber, Bool.or_eq_true] at h
  rcases h with digit | dash
  · exact not_of_isDigit digit
  · rw [Bool.and_eq_true, decide_eq_true_eq] at dash
    rw [dash.1]
    decide

private theorem not_of_sign {c : Char} {rest : List Char} {token : Token} {extra : Nat}
    (h : sign c rest = some (token, extra)) :
    c ≠ '/' ∧ isBlank c = false ∧ c ≠ '"' ∧ c.isDigit = false ∧ c ≠ '-' := by
  revert h
  simp only [sign]
  split <;> intro h <;> first | decide | cases h

/-- **What a text starts with says what its first element is**: no two ways to start go together. -/
theorem element_eq_ok_iff {c : Char} {rest : List Char} {found : Element} :
    element c rest = .ok found ↔ First c rest found := by
  refine ⟨first_of_element, fun first => ?_⟩
  cases first with
  | lineComment slash second => rw [element, if_pos ⟨slash, second⟩]
  | blockComment slash second closed =>
    rw [element, if_neg (by simp [second]), if_pos ⟨slash, second⟩, closed]
  | blank blank =>
    have slash := (not_of_isBlank blank).2.2.2.2.1
    simp only [element, slash, false_and, if_false, blank, if_true]
  | quoted quote read =>
    have blank : isBlank '"' = false := by decide
    subst quote
    simp only [element, read, blank]
    simp
  | number starts read =>
    obtain ⟨slash, blank, quote⟩ := not_of_startsNumber starts
    simp only [element, slash, false_and, if_false, blank, quote, starts, if_true,
      Bool.false_eq_true, read]
  | sign read =>
    obtain ⟨slash, blank, quote, digit, dash⟩ := not_of_sign read
    simp only [element, slash, false_and, if_false, blank, quote, startsNumber, digit, dash,
      decide_false, Bool.false_and, Bool.or_self, Bool.false_eq_true, read]
  | word start =>
    obtain ⟨slash, blank, quote, number, sign⟩ := not_of_isWordStart start rest
    simp only [element, slash, false_and, if_false, blank, quote, number, sign, start, if_true,
      Bool.false_eq_true]

theorem element_of_first {c : Char} {rest : List Char} {found : Element}
    (h : First c rest found) : element c rest = .ok found := element_eq_ok_iff.mpr h

/-! ## Words and quoted texts -/

/-- A word is spelled as it is, up to a character that no word goes on with. -/
theorem spells_word_stopsAt {w : String} (h : isWord w = true) :
    Spells (StopsAt isWordPart) w.toList [.word w] := by
  rw [isWord] at h
  split at h
  · cases h
  · next c cs hw =>
    rw [Bool.and_eq_true] at h
    rw [hw]
    refine spells_of_element (some (.word w)) fun rest stops => ?_
    have first : element c (cs ++ rest) = _ := element_of_first (.word h.1)
    have whole : String.ofList (c :: cs) = w := by rw [← hw, String.ofList_toList]
    rw [first, takeWhile_append h.2 stops, whole]

theorem spells_word {w : String} (h : isWord w = true) : Spells Separate w.toList [.word w] :=
  (spells_word_stopsAt h).weaken fun _ => Separate.stopsAt

/-- A quoted text is spelled as the string that it quotes, whatever follows. -/
theorem spells_quoted (s : String) : Spells Anything (quote s).toList [.string s] := by
  have written : (quote s).toList = '"' :: (escapeAll s.toList ++ ['"']) := by
    rw [quote, String.toList_ofList, List.cons_append]
  rw [written]
  refine spells_of_element (some (.string s)) fun rest _ => ?_
  have read := readQuoted_escapeAll s.toList rest
  rw [List.append_assoc, List.singleton_append, element_of_first (.quoted rfl read)]
  simp

/-! ## Numbers -/

/-- A run of digits with or without a minus in front is where a number starts. -/
private theorem exists_numberStart (negative : Bool) {digits : List Char} (nonempty : digits ≠ [])
    (h : digits.all Char.isDigit = true) :
    ∃ c run, (if negative then '-' :: digits else digits) = c :: run ∧
      run.all Char.isDigit = true ∧ ∀ rest, startsNumber c (run ++ rest) = true := by
  obtain ⟨d, more, rfl⟩ := List.exists_cons_of_ne_nil nonempty
  have every := h
  rw [List.all_cons, Bool.and_eq_true] at every
  cases negative with
  | true => exact ⟨'-', d :: more, rfl, h, fun rest => by simp [startsNumber, every.1]⟩
  | false => exact ⟨d, more, rfl, every.2, fun rest => by simp [startsNumber, every.1]⟩

/-- Neither digits nor a fraction go on into what is separate. -/
private theorem stops_of_separate {rest : List Char} (h : Separate rest) :
    StopsAt Char.isDigit rest ∧ ∀ more, rest ≠ '.' :: more := by
  refine ⟨fun d hd => (not_of_isSeparator (h d hd)).2.1, ?_⟩
  rintro more rfl
  exact (not_of_isSeparator (h '.' rfl)).2.2.1 rfl

private theorem readInt64_intText (i : Int64) : readInt64 (intText i.toInt).toList = some i := by
  have range := And.intro i.minValue_le_toInt i.toInt_le
  by_cases negative : i.toInt < 0
  · have value : -((readNat (natDigits i.toInt.natAbs) : Nat) : Int) = i.toInt := by
      rw [readNat_natDigits]
      omega
    rw [intText, if_pos negative, String.toList_ofList]
    simp only [readInt64, value]
    rw [if_pos range, Int64.ofInt_toInt]
  · have value : ((readNat (natDigits i.toInt.natAbs) : Nat) : Int) = i.toInt := by
      rw [readNat_natDigits]
      omega
    have digits := all_isDigit_natDigits i.toInt.natAbs
    rw [intText, if_neg negative, natText, String.toList_ofList]
    simp only [readInt64]
    split
    · next minus =>
      rw [minus, List.all_cons, Bool.and_eq_true] at digits
      exact absurd digits.1 (by decide)
    · simp only [value]
      rw [if_pos range, Int64.ofInt_toInt]

/-- An integer is spelled as it is written, up to a separator. -/
theorem spells_int (i : Int64) : Spells Separate (intText i.toInt).toList [.int i] := by
  have written : (intText i.toInt).toList =
      if decide (i.toInt < 0) then '-' :: natDigits i.toInt.natAbs
      else natDigits i.toInt.natAbs := by
    by_cases negative : i.toInt < 0 <;> simp [intText, natText, negative]
  have read := readInt64_intText i
  obtain ⟨c, run, whole, digits, starts⟩ := exists_numberStart (decide (i.toInt < 0))
    (natDigits_ne_nil i.toInt.natAbs) (all_isDigit_natDigits _)
  rw [written, whole] at read ⊢
  refine spells_of_element (some (.int i)) fun rest hr => ?_
  obtain ⟨stops, point⟩ := stops_of_separate hr
  have taken := takeWhile_append digits stops
  have left : (run ++ rest).drop run.length = rest := List.drop_left
  refine element_of_first (.number (starts rest) ?_)
  simp only [number, taken, left]
  split
  · next more => exact absurd rfl (point _)
  · simp only [number.integer, read]

/-- A number with a point is spelled as it is written, up to a separator. -/
theorem spells_float (negative : Bool) {whole fraction : List Char} (nonempty : whole ≠ [])
    (nonempty' : fraction ≠ []) (hw : whole.all Char.isDigit = true)
    (hf : fraction.all Char.isDigit = true) :
    Spells Separate ((if negative then '-' :: whole else whole) ++ '.' :: fraction)
      [.float (String.ofList ((if negative then '-' :: whole else whole) ++ '.' :: fraction))] := by
  obtain ⟨c, run, same, digits, starts⟩ := exists_numberStart negative nonempty hw
  obtain ⟨d, more, rfl⟩ := List.exists_cons_of_ne_nil nonempty'
  rw [same]
  change Spells Separate (c :: (run ++ '.' :: d :: more)) _
  refine spells_of_element (some (.float _)) fun rest hr => ?_
  obtain ⟨stops, -⟩ := stops_of_separate hr
  rw [List.all_cons, Bool.and_eq_true] at hf
  have taken : (run ++ '.' :: d :: more ++ rest).takeWhile Char.isDigit = run := by
    rw [List.append_assoc]
    exact takeWhile_append digits (stopsAt_cons rfl)
  have left : (run ++ '.' :: d :: more ++ rest).drop run.length = '.' :: d :: (more ++ rest) := by
    rw [List.append_assoc, List.drop_left]
    rfl
  refine element_of_first (.number (by rw [List.append_assoc]; exact starts _) ?_)
  simp only [number, taken, left, hf.1, if_true, takeWhile_append hf.2 stops, List.length_append,
    List.length_cons, List.cons_append, Nat.add_assoc, Nat.add_comm 1]

/-! ## Signs and blanks -/

theorem spells_sign {follow : List Char → Prop} {c : Char} {cs : List Char} {token : Token}
    (h : ∀ rest, follow rest → sign c (cs ++ rest) = some (token, cs.length)) :
    Spells follow (c :: cs) [token] :=
  spells_of_element (some token) fun rest hr => element_of_first (.sign (h rest hr))

theorem head?_ne_of_separate {rest : List Char} (h : Separate rest) : rest.head? ≠ some '=' :=
  fun same => (not_of_isSeparator (h '=' same)).2.2.2 rfl

theorem spells_blanks {cs : List Char} (h : cs.all isBlank = true) : Spells Anything cs [] := by
  induction cs with
  | nil => exact .nil
  | cons c more ih =>
    rw [List.all_cons, Bool.and_eq_true] at h
    have first : Spells Anything [c] [] :=
      spells_of_element none fun _ _ => element_of_first (.blank h.1)
    exact first.append (ih h.2) fun _ _ => trivial

namespace Spells

variable {follow : List Char → Prop} {cs ds : List Char} {ts us : List Token}

/-- A blank stands between two pieces. -/
theorem spaced (h : Spells Separate cs ts) (h' : Spells follow ds us) :
    Spells follow (cs ++ ' ' :: ds) (ts ++ us) := by
  have one : [' '].all isBlank = true := rfl
  have blank : Spells follow (' ' :: ds) us := (spells_blanks one).append h' fun _ _ => trivial
  exact h.append blank fun rest _ => separate_of_isBlank _ rfl

/-- A piece behind one that may stand anywhere. -/
theorem before (h : Spells Anything cs ts) (h' : Spells follow ds us) :
    Spells follow (cs ++ ds) (ts ++ us) :=
  h.append h' fun _ _ => trivial

end Spells

/-- Words with colons between are spelled as they are. -/
theorem spells_words {first : String} {more : List String} (h : isWord first = true)
    (h' : ∀ w ∈ more, isWord w = true) :
    Spells (StopsAt isWordPart) (":".intercalate (first :: more)).toList
      (.word first :: more.flatMap fun w => [.colon, .word w]) := by
  induction more generalizing first with
  | nil => exact spells_word_stopsAt h
  | cons next more ih =>
    rw [List.forall_mem_cons] at h'
    have colon : Spells Anything [':'] [.colon] := spells_sign fun _ _ => rfl
    have written : (":".intercalate (first :: next :: more)).toList =
        first.toList ++ ([':'] ++ (":".intercalate (next :: more)).toList) := by
      simp [String.intercalate_cons_cons, String.append_assoc]
    rw [written]
    exact (spells_word_stopsAt h).append (colon.before (ih h'.1 h'.2)) fun rest _ =>
      stopsAt_cons (by decide +kernel)

end Compliance
