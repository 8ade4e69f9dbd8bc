import Compliance.Proofs.Token.Spelling

/-!
# Texts behind line feeds

A line feed ends whatever a text ends with: no comment, string, number, word or sign
goes on behind it.  The tokens of two texts with a line feed between them are
therefore those of both, and those of the second stand as many lines further down as
the first one has, and no other way.

## Main definitions

* `Position.lowered n`, `Placed.lowered n` — a place, a token some lines further down.
* `element_append` — an element is the same in front of a line feed and more.
* `Token.scanFrom_lowered` — where a text stands shows in the lines of its tokens.
* `Token.scan_joined` — the tokens of two texts with a line feed between.
-/

namespace Compliance

open Text

/-! ## Further down -/

/-- A place some lines further down. -/
def Position.lowered (n : Nat) (p : Position) : Position := ⟨p.line + n, p.column⟩

/-- A token some lines further down. -/
def Placed.lowered (n : Nat) (t : Placed) : Placed := ⟨t.token, t.position.lowered n⟩

namespace Position

theorem advance_lowered (n : Nat) (p : Position) (c : Char) :
    (p.lowered n).advance c = (p.advance c).lowered n := by
  simp only [advance, lowered]
  split <;> simp [Nat.add_right_comm]

theorem after_lowered (n : Nat) (p : Position) (cs : List Char) :
    (p.lowered n).after cs = (p.after cs).lowered n := by
  induction cs generalizing p with
  | nil => rfl
  | cons c more ih =>
    have step (p : Position) : p.after (c :: more) = (p.advance c).after more := by simp [after]
    rw [step, step, advance_lowered, ih]

theorem after_lineFeed (cs : List Char) :
    start.after (cs ++ ['\n']) = start.lowered (cs.count '\n' + 1) := by
  have lines := line_after start (cs ++ ['\n'])
  have column : (start.after (cs ++ ['\n'])).column = 1 := by
    rw [after_append]
    simp [after, advance]
  rw [List.count_append, List.count_singleton_self] at lines
  rw [lowered, ← lines]
  exact congrArg (Position.mk _) column

end Position

/-! ## Elements -/

variable {c : Char} {rest : List Char}

/-- What the characters of a text are taken while they satisfy a test, a line feed ends if it does
not. -/
private theorem takeWhile_lineFeed {p : Char → Bool} (h : p '\n' = false) (cs more : List Char) :
    (cs ++ '\n' :: more).takeWhile p = cs.takeWhile p := by
  induction cs with
  | nil => simp [h]
  | cons c cs ih =>
    simp only [List.cons_append, List.takeWhile_cons, ih]

private theorem head?_lineFeed {d : Char} (h : d ≠ '\n') (more : List Char) :
    (rest ++ '\n' :: more).head? = some d ↔ rest.head? = some d := by
  cases rest with
  | nil => simp [h.symm]
  | cons c cs => simp

theorem commentWidth_append {width : Nat} (h : commentWidth rest = some width)
    (more : List Char) : commentWidth (rest ++ more) = some width ∧ width ≤ rest.length := by
  fun_induction commentWidth rest generalizing width with
  | case1 => cases h
  | case2 rest =>
    cases h
    simp [commentWidth]
  | case3 c rest other ih =>
    obtain ⟨inner, hi, rfl⟩ := Option.map_eq_some_iff.mp h
    obtain ⟨same, short⟩ := ih hi
    refine ⟨?_, by simpa using short⟩
    rw [List.cons_append, commentWidth]
    · rw [same]
      rfl
    · rintro behind rfl here
      cases rest with
      | nil => cases hi
      | cons d rest => exact other rest rfl (congrArg (· :: rest) (List.cons.inj here).1)

private theorem commentWidth_tail_append {width : Nat} (star : rest.head? = some '*')
    (h : commentWidth rest.tail = some width) (more : List Char) :
    commentWidth (rest ++ more).tail = some width ∧ width + 1 ≤ rest.length := by
  obtain ⟨inner, rfl⟩ := List.head?_eq_some_iff.mp star
  obtain ⟨same, short⟩ := commentWidth_append h more
  exact ⟨same, Nat.succ_le_succ short⟩

theorem readQuoted_append {content : List Char} {width : Nat}
    (h : readQuoted rest = .ok (content, width)) (more : List Char) :
    readQuoted (rest ++ more) = .ok (content, width) ∧ width ≤ rest.length := by
  fun_induction readQuoted rest generalizing content width with
  | case1 | case2 | case4 | case6 | case8 => cases h
  | case3 rest =>
    cases h
    simp [readQuoted]
  | case5 c rest inner innerWidth read ih =>
    obtain ⟨same, short⟩ := ih read
    cases h
    refine ⟨?_, by simpa using short⟩
    simp [readQuoted, same]
  | case7 c rest line quote dangling escape inner innerWidth read ih =>
    obtain ⟨same, short⟩ := ih read
    cases h
    refine ⟨?_, by simpa using short⟩
    have noEscape : c ≠ '\\' := by
      rintro rfl
      cases rest with
      | nil => exact dangling rfl rfl
      | cons d rest => exact escape d rest rfl rfl
    rw [List.cons_append, readQuoted]
    · rw [same]
    · exact line
    · exact quote
    · exact fun h _ => noEscape h
    · exact fun _ _ h _ => noEscape h

private theorem length_takeWhile_le (p : Char → Bool) (cs : List Char) :
    (cs.takeWhile p).length ≤ cs.length := (List.takeWhile_sublist p).length_le

theorem startsNumber_lineFeed (more : List Char) :
    startsNumber c (rest ++ '\n' :: more) = startsNumber c rest := by
  cases rest with
  | nil => simp [startsNumber]
  | cons d rest => rfl

theorem sign_lineFeed (more : List Char) : sign c (rest ++ '\n' :: more) = sign c rest := by
  simp only [sign, head?_lineFeed (show '=' ≠ '\n' by decide)]

theorem sign_short {token : Token} {extra : Nat} (h : sign c rest = some (token, extra)) :
    extra ≤ rest.length := by
  have doubled : rest.head? = some '=' → 1 ≤ rest.length := by
    cases rest <;> simp
  simp only [sign] at h
  split at h <;> (try split at h) <;> simp_all <;> omega

/-- A number with a point and a digit behind its first digits is a floating one. -/
theorem number_of_fraction {d : Char} {more : List Char}
    (h : rest.drop (rest.takeWhile Char.isDigit).length = '.' :: d :: more)
    (digit : d.isDigit = true) : number c rest =
      .ok ⟨some (.float (String.ofList (c :: rest.takeWhile Char.isDigit ++
          '.' :: d :: more.takeWhile Char.isDigit))),
        (rest.takeWhile Char.isDigit).length + 1 + (d :: more.takeWhile Char.isDigit).length⟩ := by
  simp only [number, h, digit, if_true]

theorem number_of_whole
    (h : ∀ d more, rest.drop (rest.takeWhile Char.isDigit).length = '.' :: d :: more →
      d.isDigit = false) :
    number c rest = number.integer c (rest.takeWhile Char.isDigit) := by
  simp only [number]
  split
  · next d more behind => rw [if_neg (by simp [h d more behind])]
  · rfl

theorem extra_integer {run : List Char} {found : Element}
    (h : number.integer c run = .ok found) : found.extra = run.length := by
  rw [number.integer] at h
  split at h <;> cases h
  rfl

theorem number_lineFeed {found : Element} (h : number c rest = .ok found) (more : List Char) :
    number c (rest ++ '\n' :: more) = .ok found ∧ found.extra ≤ rest.length := by
  have short := length_takeWhile_le Char.isDigit rest
  have noDigit : Char.isDigit '\n' = false := by decide
  have run := takeWhile_lineFeed noDigit rest more
  have behind : (rest ++ '\n' :: more).drop (rest.takeWhile Char.isDigit).length =
      rest.drop (rest.takeWhile Char.isDigit).length ++ '\n' :: more :=
    List.drop_append_of_le_length short
  by_cases fraction : ∃ d more', rest.drop (rest.takeWhile Char.isDigit).length =
      '.' :: d :: more' ∧ d.isDigit = true
  · obtain ⟨d, more', parts, digit⟩ := fraction
    rw [number_of_fraction parts digit] at h
    have parts' := behind
    rw [parts, ← run, List.cons_append, List.cons_append] at parts'
    rw [number_of_fraction parts' digit, run, takeWhile_lineFeed noDigit]
    refine ⟨h, ?_⟩
    cases h
    have lengths := congrArg List.length parts
    have shorter := length_takeWhile_le Char.isDigit more'
    simp only [List.length_drop, List.length_cons] at lengths ⊢
    omega
  · have plain : ∀ d more', rest.drop (rest.takeWhile Char.isDigit).length = '.' :: d :: more' →
        d.isDigit = false := fun d more' parts => by
      simpa using fun digit => fraction ⟨d, more', parts, digit⟩
    rw [number_of_whole plain] at h
    rw [number_of_whole, run]
    · exact ⟨h, extra_integer h ▸ short⟩
    · rw [run, behind]
      intro d more' parts
      -- A point at the end of the text has the line feed behind it.
      rcases List.append_eq_cons_iff.mp parts with ⟨-, feed⟩ | ⟨fraction', here, parts⟩
      · cases feed
      · rcases List.append_eq_cons_iff.mp parts.symm with ⟨-, feed⟩ | ⟨fraction'', rfl, -⟩
        · exact (List.cons.inj feed).1 ▸ noDigit
        · exact plain d _ here

/-- **An element does not go on behind a line feed.** -/
theorem element_append {found : Element} (h : element c rest = .ok found) (more : List Char) :
    element c (rest ++ '\n' :: more) = .ok found ∧ found.extra ≤ rest.length := by
  rw [element_eq_ok_iff] at h ⊢
  cases h with
  | lineComment slash second =>
    have whole : First c (rest ++ '\n' :: more) _ :=
      .lineComment slash ((head?_lineFeed (by decide) more).mpr second)
    rw [takeWhile_lineFeed (by simp)] at whole
    exact ⟨whole, length_takeWhile_le ..⟩
  | blockComment slash second closed =>
    obtain ⟨same, short⟩ := commentWidth_tail_append second closed ('\n' :: more)
    exact ⟨.blockComment slash ((head?_lineFeed (by decide) more).mpr second) same, short⟩
  | blank blank => exact ⟨.blank blank, Nat.zero_le _⟩
  | quoted quote read =>
    obtain ⟨same, short⟩ := readQuoted_append read ('\n' :: more)
    exact ⟨.quoted quote same, short⟩
  | number starts read =>
    obtain ⟨same, short⟩ := number_lineFeed read more
    exact ⟨.number ((startsNumber_lineFeed more).trans starts) same, short⟩
  | sign read => exact ⟨.sign ((sign_lineFeed more).trans read), sign_short read⟩
  | word start =>
    have whole : First c (rest ++ '\n' :: more) _ := .word start
    rw [takeWhile_lineFeed (by decide +kernel)] at whole
    exact ⟨whole, length_takeWhile_le ..⟩

private theorem sign_ne_eof {token : Token} {extra : Nat}
    (h : sign c rest = some (token, extra)) : token ≠ .eof := by
  simp only [sign] at h
  split at h <;> (try split at h) <;> simp_all <;> simp [← h.1]

theorem element_ne_eof {found : Element} (h : element c rest = .ok found) :
    found.token ≠ some .eof := by
  intro eof
  cases first_of_element h with
  | lineComment | blockComment | blank | quoted | word => cases eof
  | number _ number =>
    rcases number_cases number with ⟨_, int⟩ | ⟨_, _, -, float⟩
    · cases eof.symm.trans int
    · cases eof.symm.trans float
  | sign read =>
    cases eof
    exact sign_ne_eof read rfl

/-! ## Texts -/

namespace Token

/-- Where a text stands shows in the lines of its tokens, and no other way. -/
theorem scanFrom_lowered (n : Nat) {p : Position} {cs : List Char} {tokens : List Placed}
    (h : scanFrom p cs = .ok tokens) :
    scanFrom (p.lowered n) cs = .ok (tokens.map (Placed.lowered n)) := by
  fun_induction scanFrom p cs generalizing tokens with
  | case1 p =>
    cases h
    rw [scanFrom]
    rfl
  | case2 | case3 => cases h
  | case4 p c rest found read others rest' token isToken ih =>
    cases h
    rw [scanFrom]
    simp only [read, Position.after_lowered, ih rest', isToken, List.map_cons, Placed.lowered]
  | case5 p c rest found read others rest' isGap ih =>
    cases h
    rw [scanFrom]
    simp only [read, Position.after_lowered, ih rest', isGap]

/-- Behind an element, and behind the rest of the text. -/
private theorem after_element (p : Position) (c : Char) (rest : List Char) (n : Nat) :
    (p.after (c :: rest.take n)).after (rest.drop n) = p.after (c :: rest) := by
  rw [← Position.after_append, List.cons_append, List.take_append_drop]

/-- In front of a line feed a text goes on behind its first element. -/
private theorem scanFrom_element {p : Position} {c : Char} {rest : List Char} {found : Element}
    (read : element c rest = .ok found) (more : List Char) :
    scanFrom p (c :: (rest ++ '\n' :: more)) =
      (scanFrom (p.after (c :: rest.take found.extra))
        (rest.drop found.extra ++ '\n' :: more)).map
          fun tokens => (found.token.map (Placed.mk · p)).toList ++ tokens := by
  obtain ⟨same, short⟩ := element_append read more
  rw [scanFrom, same]
  simp only [List.take_append_of_le_length short, List.drop_append_of_le_length short]
  cases scanFrom (p.after (c :: rest.take found.extra)) (rest.drop found.extra ++ '\n' :: more)
  · rfl
  · cases found.token <;> rfl

/-- The tokens of a text are followed by its end, wherever it stands, and in front of a line feed
they are followed by those behind it. -/
theorem scanFrom_joined {p : Position} {cs : List Char} {tokens : List Placed}
    (h : scanFrom p cs = .ok tokens) :
    ∃ front, tokens = front ++ [⟨.eof, p.after cs⟩] ∧ (∀ t ∈ front, t.token ≠ .eof) ∧
      ∀ more, scanFrom p (cs ++ '\n' :: more) =
        (scanFrom (p.after (cs ++ ['\n'])) more).map (front ++ ·) := by
  fun_induction scanFrom p cs generalizing tokens with
  | case1 p =>
    cases h
    refine ⟨[], rfl, by simp, fun more => ?_⟩
    have feed : element '\n' more = .ok ⟨none, 0⟩ := by
      simp [element, show Text.isBlank '\n' = true by decide]
    have step : p.after ('\n' :: more.take 0) = p.after ['\n'] := rfl
    rw [List.nil_append, scanFrom, feed]
    simp only [step, List.drop_zero, List.nil_append]
    cases scanFrom (p.after ['\n']) more <;> rfl
  | case2 | case3 => cases h
  | case4 p c rest found read others rest' token isToken ih =>
    cases h
    obtain ⟨front, rfl, ends, joined⟩ := ih rest'
    refine ⟨⟨token, p⟩ :: front, by simp [after_element], ?_, fun more => ?_⟩
    · rw [List.forall_mem_cons]
      exact ⟨fun eof => element_ne_eof read (isToken.trans (congrArg some eof)), ends⟩
    · rw [List.cons_append, scanFrom_element read, joined more, isToken, Position.after_append,
        after_element, ← Position.after_append]
      cases scanFrom (p.after (c :: rest ++ ['\n'])) more <;> rfl
  | case5 p c rest found read others rest' isGap ih =>
    cases h
    obtain ⟨front, rfl, ends, joined⟩ := ih rest'
    refine ⟨front, by simp [after_element], ends, fun more => ?_⟩
    rw [List.cons_append, scanFrom_element read, joined more, isGap, Position.after_append,
      after_element, ← Position.after_append]
    cases scanFrom (p.after (c :: rest ++ ['\n'])) more <;> rfl

/-- **The tokens of two texts with a line feed between are those of both**, and those of the second
stand further down by the lines of the first. -/
theorem scan_joined {text more : String} {tokens others : List Placed}
    (h : scan text = .ok tokens) (h' : scan more = .ok others) :
    ∃ front last, tokens = front ++ [last] ∧ (∀ t ∈ front, t.token ≠ .eof) ∧
      scan (text ++ "\n" ++ more) =
        .ok (front ++ others.map (Placed.lowered (text.toList.count '\n' + 1))) := by
  obtain ⟨front, ends, plain, joined⟩ := scanFrom_joined h
  refine ⟨front, _, ends, plain, ?_⟩
  have whole : (text ++ "\n" ++ more).toList = text.toList ++ '\n' :: more.toList := by simp
  rw [scan, whole, joined, Position.after_lineFeed, scanFrom_lowered _ h']
  rfl

end Token

end Compliance
