import Compliance.Proofs.Token.Joined
import Compliance.Proofs.Token.Spelling

/-!
# What stands behind an element

Where an element ends shows in the character behind it, and for a number in the two
behind it.  What stands there may be replaced by anything that begins alike, or that
begins with a character that goes on with nothing: a blank, or the slash of a comment.
Only a comment that runs to the end of its line needs more, for it goes on with all but
a line feed.

## Main definitions

* `Ends c` — no word, number or sign goes on with a character.
* `Replaces new old` — one text may take the place of another behind an element.
* `element_replace` — the element in front is the same.
* `Token.Leads p front tokens back` — in front of a text there are whole elements.
* `Token.Leads.replace` — they stay what they are in front of another.
-/

namespace Compliance

open Text

/-! ## Elements without what follows -/

theorem commentWidth_take {cs : List Char} {width : Nat} (h : commentWidth cs = some width) :
    commentWidth (cs.take width) = some width := by
  fun_induction commentWidth cs generalizing width with
  | case1 => cases h
  | case2 rest =>
    cases h
    simp [commentWidth]
  | case3 c rest other ih =>
    obtain ⟨inner, hi, rfl⟩ := Option.map_eq_some_iff.mp h
    rw [List.take_succ_cons, commentWidth]
    · rw [ih hi]
      rfl
    · rintro behind rfl here
      obtain ⟨left, split⟩ : ∃ left, rest = '/' :: (behind ++ left) :=
        ⟨rest.drop inner, by rw [← List.cons_append, ← here, List.take_append_drop]⟩
      exact other _ rfl split

/-- A block comment is as long as it is, whatever follows it. -/
theorem commentWidth_replace {front old : List Char} (new : List Char)
    (h : commentWidth (front ++ old) = some front.length) :
    commentWidth (front ++ new) = some front.length := by
  have cut := commentWidth_take h
  rw [List.take_left] at cut
  exact (commentWidth_append cut new).1

theorem readQuoted_take {cs content : List Char} {width : Nat}
    (h : readQuoted cs = .ok (content, width)) :
    readQuoted (cs.take width) = .ok (content, width) := by
  fun_induction readQuoted cs generalizing content width with
  | case1 | case2 | case4 | case6 | case8 => cases h
  | case3 rest =>
    cases h
    simp [readQuoted]
  | case5 c rest inner innerWidth read ih =>
    cases h
    simp [readQuoted, ih read]
  | case7 c rest line quote dangling escape inner innerWidth read ih =>
    cases h
    rw [List.take_succ_cons, readQuoted]
    · rw [ih read]
    · exact line
    · exact quote
    · rintro rfl here
      have contrary := ih read
      rw [here] at contrary
      cases contrary
    · rintro d more rfl here
      obtain ⟨left, split⟩ : ∃ left, rest = d :: (more ++ left) :=
        ⟨rest.drop innerWidth, by rw [← List.cons_append, ← here, List.take_append_drop]⟩
      exact escape _ _ rfl split

theorem readQuoted_replace {front old content : List Char} (new : List Char)
    (h : readQuoted (front ++ old) = .ok (content, front.length)) :
    readQuoted (front ++ new) = .ok (content, front.length) := by
  have cut := readQuoted_take h
  rw [List.take_left] at cut
  exact (readQuoted_append cut new).1

theorem stopsAt_of_length_takeWhile {p : Char → Bool} {front rest : List Char}
    (h : ((front ++ rest).takeWhile p).length = front.length) :
    front.all p = true ∧ StopsAt p rest := by
  induction front with
  | nil =>
    refine ⟨rfl, fun c hc => ?_⟩
    obtain ⟨more, rfl⟩ := List.head?_eq_some_iff.mp hc
    by_contra continues
    rw [Bool.not_eq_false] at continues
    simp [continues] at h
  | cons c more ih =>
    by_cases continues : p c = true
    · simp only [List.cons_append, List.takeWhile_cons, continues, if_true, List.length_cons,
        Nat.add_right_cancel_iff] at h
      rw [List.all_cons, continues]
      exact ih h
    · simp [continues] at h

/-! ## Replacing what follows -/

/-- No word, number or sign goes on with a character. -/
def Ends (c : Char) : Prop := isWordPart c = false ∧ c.isDigit = false ∧ c ≠ '.' ∧ c ≠ '='

theorem ends_of_isBlank {c : Char} (h : isBlank c = true) : Ends c := by
  obtain ⟨part, digit, -, point, -, equal⟩ := not_of_isBlank h
  exact ⟨part, digit, point, equal⟩

theorem ends_slash : Ends '/' := by
  refine ⟨?_, ?_, ?_, ?_⟩ <;> decide +kernel

/-- One text may take the place of another behind an element: it begins with the same character or
one that nothing goes on with, and if a point and a digit begin it, with the same two. -/
structure Replaces (new old : List Char) : Prop where
  head : ∀ c, new.head? = some c → old.head? = some c ∨ Ends c
  point : ∀ d more, new = '.' :: d :: more → d.isDigit = true → old.tail.head? = some d

namespace Replaces

variable {new old : List Char}

theorem refl (old : List Char) : Replaces old old where
  head _ hd := .inl hd
  point _ _ same _ := by
    subst same
    rfl

theorem of_ends {c : Char} {more : List Char} (h : Ends c) : Replaces (c :: more) old where
  head _ hd := .inr (Option.some.inj hd ▸ h)
  point _ _ same _ := absurd (List.cons.inj same).1 h.2.2.1

theorem of_head {c : Char} {more rest : List Char} (h : c ≠ '.') :
    Replaces (c :: more) (c :: rest) where
  head _ hd := .inl hd
  point _ _ same _ := absurd (List.cons.inj same).1 h

/-- Behind the same front the same may be replaced. -/
theorem append (h : Replaces new old) (front : List Char) :
    Replaces (front ++ new) (front ++ old) := by
  match front with
  | [] => exact h
  | [c] =>
    refine ⟨fun d hd => .inl hd, fun d more same digit => ?_⟩
    obtain ⟨-, rfl⟩ := List.cons.inj same
    exact (h.head d rfl).resolve_right fun ends => by simp [ends.2.1] at digit
  | c :: d :: more =>
    refine ⟨fun e he => .inl he, fun e rest same _ => ?_⟩
    obtain ⟨-, same⟩ := List.cons.inj same
    exact congrArg some (List.cons.inj same).1

/-- A run that stops in front of one stops in front of the other. -/
theorem stops (h : Replaces new old) {p : Char → Bool} (hp : ∀ c, Ends c → p c = false)
    (stop : StopsAt p old) : StopsAt p new := fun c hc =>
  (h.head c hc).elim (stop c) (hp c)

end Replaces

/-- What is behind a sign decides it only by being a second sign. -/
private theorem sign_replace {c : Char} {token : Token} {more new old : List Char}
    (h : sign c (more ++ old) = some (token, more.length)) (r : Replaces new old) :
    sign c (more ++ new) = some (token, more.length) := by
  cases more with
  | cons d more => exact h
  | nil =>
    have equal : new.head? = some '=' → old.head? = some '=' := fun same =>
      (r.head _ same).resolve_right fun ends => ends.2.2.2 rfl
    simp only [sign, List.nil_append, List.length_nil] at h ⊢
    split at h <;> (try split at h) <;> simp_all

/-- Behind a minus a number goes on, so a number is not the minus alone. -/
private theorem startsNumber_replace {c : Char} {token : Option Token} {more new old : List Char}
    (starts : startsNumber c (more ++ old) = true)
    (h : number c (more ++ old) = .ok ⟨token, more.length⟩) :
    startsNumber c (more ++ new) = true := by
  cases more with
  | cons d more => exact starts
  | nil =>
    rw [startsNumber, Bool.or_eq_true, Bool.and_eq_true] at starts
    rcases starts with digit | ⟨-, digit⟩
    · simp [startsNumber, digit]
    · obtain ⟨d, hd, digit⟩ := (Option.any_eq_true ..).mp digit
      obtain ⟨rest, rfl⟩ := List.head?_eq_some_iff.mp hd
      simp only [number, List.nil_append, List.takeWhile_cons, number.integer,
        List.length_nil] at h
      split at h <;> (try split at h) <;> (try split at h) <;> simp at h

private theorem integer_eq_ok {c : Char} {run : List Char} {token : Option Token} {extra : Nat}
    (h : number.integer c run = .ok ⟨token, extra⟩) : run.length = extra :=
  (extra_integer h).symm

/-- A number with a fraction ends where the digits behind its point do. -/
private theorem fraction_replace {c d : Char} {token : Option Token}
    {more new old rest : List Char} (h : number c (more ++ old) = .ok ⟨token, more.length⟩)
    (r : Replaces new old) (parts : (more ++ old).drop
      ((more ++ old).takeWhile Char.isDigit).length = '.' :: d :: rest) (digit : d.isDigit = true) :
    number c (more ++ new) = .ok ⟨token, more.length⟩ := by
  rw [number_of_fraction parts digit] at h
  -- The number is a run of digits, the point and a second run, which ends in front of `old`.
  generalize first : (more ++ old).takeWhile Char.isDigit = run at h parts
  generalize second : rest.takeWhile Char.isDigit = behind at h
  have every : run.all Char.isDigit = true := first ▸ List.all_takeWhile
  have whole : more ++ old = run ++ '.' :: d :: rest := by
    rw [← parts, ← first, List.prefix_iff_eq_append.mp (List.takeWhile_prefix _)]
  obtain ⟨left, split⟩ := second ▸ List.takeWhile_prefix (l := rest) Char.isDigit
  obtain ⟨rfl, extra⟩ := Element.mk.inj (Except.ok.inj h)
  obtain ⟨rfl, rfl⟩ : more = run ++ '.' :: d :: behind ∧ old = left := by
    refine List.append_inj (by simp [whole, ← split]) ?_
    rw [← extra]
    simp
    omega
  rw [← split] at second
  obtain ⟨every', stops⟩ := stopsAt_of_length_takeWhile (congrArg List.length second)
  have first' : (run ++ '.' :: d :: behind ++ new).takeWhile Char.isDigit = run := by
    rw [List.append_assoc]
    exact takeWhile_append every (stopsAt_cons rfl)
  have parts' : (run ++ '.' :: d :: behind ++ new).drop
      ((run ++ '.' :: d :: behind ++ new).takeWhile Char.isDigit).length =
        '.' :: d :: (behind ++ new) := by
    rw [first', List.append_assoc, List.drop_left]
    rfl
  have stops' := r.stops (fun _ ends => ends.2.1) stops
  rw [number_of_fraction parts' digit, first', takeWhile_append every' stops', ← extra]

/-- A number without a fraction ends where its digits do, and no point and digit follow it. -/
private theorem whole_replace {c : Char} {token : Option Token} {more new old : List Char}
    (h : number c (more ++ old) = .ok ⟨token, more.length⟩) (r : Replaces new old)
    (plain : ∀ d rest, (more ++ old).drop ((more ++ old).takeWhile Char.isDigit).length =
      '.' :: d :: rest → d.isDigit = false) :
    number c (more ++ new) = .ok ⟨token, more.length⟩ := by
  rw [number_of_whole plain] at h
  obtain ⟨every, stops⟩ := stopsAt_of_length_takeWhile (integer_eq_ok h)
  have run := takeWhile_append every stops
  have run' := takeWhile_append every (r.stops (fun _ ends => ends.2.1) stops)
  rw [run, List.drop_left] at plain
  rw [run] at h
  rw [number_of_whole, run']
  · exact h
  · rw [run', List.drop_left]
    rintro d rest rfl
    by_contra digit
    rw [Bool.not_eq_false] at digit
    obtain point | ends := r.head '.' rfl
    · obtain ⟨behind, rfl⟩ := List.head?_eq_some_iff.mp point
      obtain ⟨last, rfl⟩ := List.head?_eq_some_iff.mp (r.point d rest rfl digit)
      rw [plain d last rfl] at digit
      cases digit
    · exact ends.2.2.1 rfl

/-- A number is the same in front of what may take the place. -/
private theorem number_replace {c : Char} {token : Option Token} {more new old : List Char}
    (h : number c (more ++ old) = .ok ⟨token, more.length⟩) (r : Replaces new old) :
    number c (more ++ new) = .ok ⟨token, more.length⟩ := by
  by_cases fraction : ∃ d rest, (more ++ old).drop ((more ++ old).takeWhile Char.isDigit).length =
      '.' :: d :: rest ∧ d.isDigit = true
  · obtain ⟨d, rest, parts, digit⟩ := fraction
    exact fraction_replace h r parts digit
  · refine whole_replace h r fun d rest parts => ?_
    simpa using fun digit => fraction ⟨d, rest, parts, digit⟩

theorem element_slash {rest : List Char} {found : Element}
    (h : element '/' rest = .ok found) :
    (rest.head? = some '/' ∧ found = ⟨none, (rest.takeWhile (· ≠ '\n')).length⟩) ∨
      (rest.head? = some '*' ∧ ∃ width, commentWidth rest.tail = some width ∧
        found = ⟨none, width + 1⟩) := by
  cases first_of_element h with
  | lineComment _ line => exact .inl ⟨line, rfl⟩
  | blockComment _ block closed => exact .inr ⟨block, _, closed, rfl⟩
  | blank blank => exact absurd blank (by decide)
  | quoted quote => exact absurd quote (by decide)
  | number starts => simp [startsNumber, show Char.isDigit '/' = false by decide] at starts
  | sign read => cases read
  | word start => exact absurd start (by decide +kernel)

/-- A comment is the same in front of what may take the place, if this ends a comment's line where
it was ended. -/
private theorem comment_replace {token : Option Token} {more new old : List Char}
    (h : element '/' (more ++ old) = .ok ⟨token, more.length⟩)
    (line : more.head? = some '/' → '\n' ∉ more → StopsAt (· ≠ '\n') old →
      StopsAt (· ≠ '\n') new) :
    element '/' (more ++ new) = .ok ⟨token, more.length⟩ := by
  cases more with
  | nil =>
    rcases element_slash h with ⟨start, found⟩ | ⟨-, width, -, found⟩
    · obtain ⟨rest, rfl⟩ := List.head?_eq_some_iff.mp start
      simp at found
    · simp at found
  | cons d more =>
    rcases element_slash h with ⟨start, found⟩ | ⟨start, width, closed, found⟩
    · obtain rfl : d = '/' := Option.some.inj start
      obtain ⟨rfl, extra⟩ := Element.mk.inj found
      obtain ⟨inside, stops⟩ := stopsAt_of_length_takeWhile extra.symm
      have inLine : '\n' ∉ '/' :: more := fun feed => by
        simpa using List.all_eq_true.mp inside _ feed
      have stops' := line rfl inLine stops
      simp only [element, List.cons_append, List.head?_cons, and_self, if_true]
      rw [← List.cons_append, takeWhile_append inside stops']
    · obtain rfl : d = '*' := Option.some.inj start
      obtain ⟨rfl, extra⟩ := Element.mk.inj found
      obtain rfl : more.length = width := Nat.succ.inj extra
      simp [element, commentWidth_replace new closed]

/-- **An element is the same in front of what may take the place.**  A comment that runs to the end
of its line is, if what takes the place ends the line where it was ended. -/
theorem element_replace {c : Char} {token : Option Token} {more new old : List Char}
    (h : element c (more ++ old) = .ok ⟨token, more.length⟩) (r : Replaces new old)
    (line : c = '/' → more.head? = some '/' → '\n' ∉ more → StopsAt (· ≠ '\n') old →
      StopsAt (· ≠ '\n') new) :
    element c (more ++ new) = .ok ⟨token, more.length⟩ := by
  by_cases slash : c = '/'
  · subst slash
    exact comment_replace h (line rfl)
  rw [element_eq_ok_iff] at h ⊢
  generalize same : (⟨token, more.length⟩ : Element) = found at h
  cases h with
  | lineComment opens | blockComment opens => exact absurd opens slash
  | blank blank => exact .blank blank
  | quoted quote read =>
    obtain ⟨rfl, rfl⟩ := Element.mk.inj same
    exact .quoted quote (readQuoted_replace new read)
  | number starts read =>
    subst same
    exact .number (startsNumber_replace starts read) (number_replace read r)
  | sign read =>
    obtain ⟨rfl, rfl⟩ := Element.mk.inj same
    exact .sign (sign_replace read r)
  | word start =>
    obtain ⟨rfl, extra⟩ := Element.mk.inj same
    obtain ⟨inside, stops⟩ := stopsAt_of_length_takeWhile extra.symm
    have stops' := r.stops (fun d ends => ends.1) stops
    have first : First c (more ++ new) _ := .word start
    rw [takeWhile_append inside stops'] at first
    rw [takeWhile_append inside stops]
    exact first

/-! ## Elements one after the other -/

namespace Token

/-- In front of a text there are whole elements, the first at a position, and these are the tokens
among them. -/
inductive Leads : Position → List Char → List Placed → List Char → Prop
  | nil (p : Position) (back : List Char) : Leads p [] [] back
  | cons {p c more token rest tokens back} :
      element c (more ++ (rest ++ back)) = .ok ⟨token, more.length⟩ →
      Leads (p.after (c :: more)) rest tokens back →
      Leads p (c :: more ++ rest) ((token.map (Placed.mk · p)).toList ++ tokens) back

variable {p : Position} {front middle back new : List Char} {tokens others : List Placed}

namespace Leads

theorem append (h : Leads p front tokens (middle ++ back))
    (h' : Leads (p.after front) middle others back) :
    Leads p (front ++ middle) (tokens ++ others) back := by
  generalize whole : middle ++ back = behind at h
  induction h with
  | nil => exact h'
  | @cons p c more token rest tokens behind read _ ih =>
    subst whole
    rw [List.append_assoc, List.append_assoc]
    rw [Position.after_append] at h'
    exact .cons (by rwa [List.append_assoc]) (ih h' rfl)

/-- One element more. -/
theorem concat {c : Char} {more : List Char} {token : Option Token}
    (h : Leads p front tokens (c :: more ++ back))
    (read : element c (more ++ back) = .ok ⟨token, more.length⟩) :
    Leads p (front ++ c :: more)
      (tokens ++ (token.map (Placed.mk · (p.after front))).toList) back := by
  have last : Leads (p.after front) (c :: more ++ [])
      ((token.map (Placed.mk · (p.after front))).toList ++ []) back := .cons read (.nil _ back)
  rw [List.append_nil, List.append_nil] at last
  exact h.append last

/-- The tokens of the whole text are those in front and those behind. -/
theorem scanFrom_eq (h : Leads p front tokens back) :
    scanFrom p (front ++ back) = (scanFrom (p.after front) back).map (tokens ++ ·) := by
  induction h with
  | nil p back =>
    have same : p.after [] = p := rfl
    rw [List.nil_append, same]
    cases scanFrom p back <;> rfl
  | @cons p c more token rest tokens back read _ ih =>
    rw [List.append_assoc, List.cons_append, scanFrom, read]
    simp only [List.take_left, List.drop_left, ih, Position.after_append]
    cases scanFrom ((p.after (c :: more)).after rest) back with
    | error error => rfl
    | ok behind => cases token <;> simp [Except.map]

end Leads

/-- Behind whole elements a comment starts that no line feed ends. -/
def EndsInComment (p : Position) (cs : List Char) : Prop :=
  ∃ front inside tokens, cs = front ++ '/' :: '/' :: inside ∧ '\n' ∉ inside ∧
    Leads p front tokens ('/' :: '/' :: inside)

/-- **Whole elements stay what they are in front of what may take the place**, unless they end in a
comment that was ended there and is no longer. -/
theorem Leads.replace (h : Leads p front tokens back) (r : Replaces new back)
    (line : StopsAt (· ≠ '\n') back →
      StopsAt (· ≠ '\n') new ∨ back = [] ∧ ¬ EndsInComment p front) :
    Leads p front tokens new := by
  induction h with
  | nil p => exact .nil p new
  | @cons p c more token rest tokens back read behind ih =>
    refine .cons (element_replace read (r.append rest) ?_) (ih r fun stops => ?_)
    · rintro rfl slash inLine stops
      cases rest with
      | cons d rest => exact fun e he => stops e he
      | nil =>
        refine (line stops).resolve_right ?_
        rintro ⟨rfl, noComment⟩
        obtain ⟨inside, rfl⟩ := List.head?_eq_some_iff.mp slash
        exact noComment ⟨[], inside, [], by simp, fun feed => inLine (.tail _ feed), .nil _ _⟩
    · refine (line stops).imp_right fun ⟨ends, noComment⟩ => ⟨ends, fun comment => noComment ?_⟩
      subst ends
      obtain ⟨front, inside, tokens, rfl, inLine, leads⟩ := comment
      rw [List.append_nil] at read
      exact ⟨c :: more ++ front, inside, _, by simp, inLine, .cons read leads⟩

/-- A comment at the end of a text goes on with all that is added in its line. -/
theorem EndsInComment.leads (h : EndsInComment p front) : ∃ tokens, ∀ more back,
    '\n' ∉ more → StopsAt (· ≠ '\n') back → Leads p (front ++ more) tokens back := by
  obtain ⟨start, inside, tokens, rfl, inLine, leads⟩ := h
  refine ⟨tokens, fun more back inLine' stops => ?_⟩
  have alike : Replaces ('/' :: '/' :: (inside ++ more) ++ back) ('/' :: '/' :: inside) :=
    .of_head (by decide)
  have comment : element '/' ('/' :: (inside ++ more) ++ back) =
      .ok ⟨none, ('/' :: (inside ++ more)).length⟩ := by
    have all : ('/' :: (inside ++ more)).all (· ≠ '\n') = true := by
      rw [List.all_eq_true]
      rintro c hc
      simp only [List.mem_cons, List.mem_append] at hc
      simp only [ne_eq, decide_not, Bool.not_eq_true', decide_eq_false_iff_not]
      rintro rfl
      rcases hc with slash | feed | feed
      · cases slash
      · exact inLine feed
      · exact inLine' feed
    simp only [element, List.cons_append, List.head?_cons, and_self, if_true]
    rw [← List.cons_append, takeWhile_append all stops]
  have all := (leads.replace alike fun stops => .inl fun c hc => stops c hc).concat comment
  simpa using all

end Token

end Compliance
