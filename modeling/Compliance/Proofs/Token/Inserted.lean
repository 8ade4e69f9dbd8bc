import Compliance.Proofs.Token.Replaced

/-!
# White space and comments between tokens

Between two tokens of a text, in front of the first and behind the last, anything may
be inserted that is no token: blanks, a block comment, or a comment with the line feed
that ends it.  The text has the same tokens then.  Those in front stay where they are,
and those behind move with what they stand behind: in its line by as many columns as
it moves itself, and below it by as many lines.

One thing cannot be inserted.  Behind a comment that runs to the end of the text
without a line feed a block comment starts in that comment, and if it goes on in the
next line, it is no comment there.

## Main definitions

* `Position.pushed p here there` — where a place goes when the text from another on moves.
* `Gap` — what may stand between tokens.
* `Token.Seam text tokens front back` — a place in front of or behind a token.
* `Token.scan_inserted` — the tokens of a text with a gap in a seam.
-/

namespace Compliance

open Text

/-! ## Places in order -/

namespace Position

/-- One place is earlier in a text than another. -/
def Before (p q : Position) : Prop := p.line < q.line ∨ p.line = q.line ∧ p.column < q.column

instance (p q : Position) : Decidable (p.Before q) :=
  inferInstanceAs (Decidable (_ ∨ _))

theorem Before.irrefl (p : Position) : ¬ p.Before p := by
  simp [Before]

theorem Before.trans {p q r : Position} (h : p.Before q) (h' : q.Before r) : p.Before r := by
  simp only [Before] at *
  omega

theorem before_advance (p : Position) (c : Char) : p.Before (p.advance c) := by
  by_cases feed : c = '\n' <;> simp [Before, advance, feed]

theorem after_cons (p : Position) (c : Char) (more : List Char) :
    p.after (c :: more) = (p.advance c).after more := by
  simp [after]

/-- Behind a run of characters is later than in front of it. -/
theorem before_after (p : Position) {cs : List Char} (h : cs ≠ []) : p.Before (p.after cs) := by
  induction cs generalizing p with
  | nil => exact absurd rfl h
  | cons c more ih =>
    rw [after_cons]
    by_cases last : more = []
    · subst last
      exact p.before_advance c
    · exact (p.before_advance c).trans (ih _ last)

/-- What stands in front of a place in a text is known from the place. -/
theorem eq_of_after_eq {p : Position} {front front' back back' : List Char}
    (whole : front ++ back = front' ++ back') (same : p.after front = p.after front') :
    front = front' := by
  have main {front between : List Char} (same : p.after front = p.after (front ++ between)) :
      between = [] := by
    by_contra nonempty
    have later := (p.after front).before_after nonempty
    rw [← after_append, ← same] at later
    exact Before.irrefl _ later
  rcases List.append_eq_append_iff.mp whole with ⟨between, rfl, -⟩ | ⟨between, rfl, -⟩
  · rw [main same, List.append_nil]
  · rw [main same.symm, List.append_nil]

/-- Where a place goes when the text from `here` on begins at `there` instead: what is earlier
stays, the rest of the line goes on behind `there`, and all below it moves by as many lines. -/
def pushed (p here there : Position) : Position :=
  if p.Before here then p
  else {
    line := p.line + (there.line - here.line)
    column := if p.line = here.line then there.column + (p.column - here.column) else p.column }

/-- Behind the place characters move a pushed place on as they move the place itself. -/
theorem pushed_advance {here there p : Position} (later : ¬ p.Before here) (c : Char) :
    (p.advance c).pushed here there = (p.pushed here there).advance c := by
  have later' : ¬ (p.advance c).Before here := fun before =>
    later ((p.before_advance c).trans before)
  rw [pushed, pushed, if_neg later, if_neg later']
  simp only [Before, not_or, not_and, Nat.not_lt] at later
  by_cases feed : c = '\n'
  · have below : p.line + 1 ≠ here.line := by omega
    simp [advance, feed, below, Nat.add_right_comm]
  · simp only [advance, feed, if_false]
    by_cases same : p.line = here.line
    · have right := later.2 same
      simp only [same, if_true, Position.mk.injEq, true_and]
      omega
    · simp only [same, if_false]

theorem pushed_after_of_not_before {here there p : Position} (later : ¬ p.Before here)
    (cs : List Char) : (p.after cs).pushed here there = (p.pushed here there).after cs := by
  induction cs generalizing p with
  | nil => rfl
  | cons c more ih =>
    have later' : ¬ (p.advance c).Before here := fun before =>
      later ((p.before_advance c).trans before)
    rw [after_cons, after_cons, ih later', pushed_advance later]

/-- What stands behind the place stands behind the other one then. -/
theorem pushed_after {here there : Position} (down : here.line ≤ there.line) (cs : List Char) :
    (here.after cs).pushed here there = there.after cs := by
  rw [pushed_after_of_not_before (Before.irrefl here), pushed, if_neg (Before.irrefl here)]
  simp [Nat.add_sub_cancel' down]

end Position

/-- A token whose place is pushed. -/
def Placed.pushed (here there : Position) (t : Placed) : Placed :=
  ⟨t.token, t.position.pushed here there⟩

/-! ## Gaps -/

/-- What may stand between tokens. -/
inductive Gap where
  /-- White space. -/
  | blanks (cs : List Char) (blank : cs.all isBlank = true)
  /-- A block comment. -/
  | block (body : List Char) (closed : ¬ ['*', '/'] <:+: body)
  /-- A comment that ends with its line. -/
  | line (body : List Char) (inLine : '\n' ∉ body)

namespace Gap

/-- The characters of a gap. -/
def chars : Gap → List Char
  | blanks cs _ => cs
  | block body _ => '/' :: '*' :: (body ++ ['*', '/'])
  | line body _ => '/' :: '/' :: (body ++ ['\n'])

theorem commentWidth_body {body : List Char} (closed : ¬ ['*', '/'] <:+: body)
    (rest : List Char) : commentWidth (body ++ '*' :: '/' :: rest) = some (body.length + 2) := by
  induction body with
  | nil => simp [commentWidth]
  | cons c more ih =>
    have later := ih fun inside => closed (inside.trans (List.suffix_cons c more).isInfix)
    rw [List.cons_append, commentWidth, later]
    · rfl
    · rintro left rfl here
      cases more with
      | nil => simp at here
      | cons d more =>
        obtain ⟨rfl, -⟩ := List.cons.inj here
        exact closed ⟨[], more, rfl⟩

theorem closed_lineFeed : ¬ ['*', '/'] <:+: ['\n'] := by decide

/-- **A gap has no tokens**, whatever follows it. -/
theorem spells_nothing (gap : Gap) : Spells Anything gap.chars [] := by
  cases gap with
  | blanks cs blank => exact spells_blanks blank
  | block body closed =>
    refine spells_of_element none fun rest _ => ?_
    have width := commentWidth_body closed rest
    simp [element, width]
  | line body inLine =>
    have comment : Spells (fun rest => StopsAt (· ≠ '\n') rest) ('/' :: '/' :: body) [] := by
      refine spells_of_element none fun rest stops => ?_
      have inside : ('/' :: body).all (· ≠ '\n') = true := by
        simpa using List.forall_mem_ne'.mpr inLine
      simp only [element, List.cons_append, List.head?_cons, and_self, if_true]
      rw [← List.cons_append, takeWhile_append inside stops]
    have feed : Spells Anything ['\n'] [] := spells_blanks rfl
    exact comment.append feed fun rest _ => stopsAt_cons (by simp)

/-- No element goes on into a gap. -/
theorem replaces (gap : Gap) (back : List Char) : Replaces (gap.chars ++ back) back := by
  cases gap with
  | blanks cs blank =>
    cases cs with
    | nil => exact .refl back
    | cons c more => exact .of_ends (ends_of_isBlank (List.all_eq_true.mp blank c (.head _)))
  | block body closed => exact .of_ends ends_slash
  | line body inLine => exact .of_ends ends_slash

/-- A gap may stand in a place of a text, unless it is a block comment of several lines and the
text ends there, in a comment that no line feed ends. -/
def Fits (gap : Gap) (front back : List Char) : Prop :=
  match gap with
  | block body _ => back = [] → Token.EndsInComment Position.start front → '\n' ∉ body
  | _ => True

/-- A gap that fits ends the line of a comment with its blanks, if not with the text. -/
theorem Fits.parts {gap : Gap} {front : List Char} (h : gap.Fits front [])
    (comment : Token.EndsInComment Position.start front) : ∃ inLine blanks,
      gap.chars = inLine ++ blanks ∧ '\n' ∉ inLine ∧ StopsAt (· ≠ '\n') blanks ∧
        blanks.all isBlank = true := by
  cases gap with
  | blanks cs blank =>
    refine ⟨cs.takeWhile (· ≠ '\n'), cs.dropWhile (· ≠ '\n'), ?_, ?_, ?_, ?_⟩
    · exact List.takeWhile_append_dropWhile.symm
    · intro feed
      simpa using List.all_eq_true.mp List.all_takeWhile _ feed
    · have whole := cs.takeWhile_append_dropWhile (p := (· ≠ '\n'))
      exact (stopsAt_of_length_takeWhile (congrArg (·.takeWhile (· ≠ '\n') |>.length) whole)).2
    · rw [List.all_eq_true] at blank ⊢
      exact fun c hc => blank c ((List.dropWhile_suffix _).subset hc)
  | block body closed =>
    have inLine := h rfl comment
    refine ⟨_, [], (List.append_nil _).symm, ?_, stopsAt_nil _, rfl⟩
    simpa [chars] using inLine
  | line body inLine =>
    refine ⟨'/' :: '/' :: body, ['\n'], by simp [chars], ?_, stopsAt_cons (by simp), rfl⟩
    simpa using inLine

end Gap

/-! ## Seams -/

namespace Token

variable {p : Position} {cs front back : List Char} {tokens : List Placed} {t : Placed}

private theorem element_parts {c : Char} {rest : List Char} {found : Element}
    (read : element c rest = .ok found) :
    element c (rest.take found.extra ++ rest.drop found.extra) =
      .ok ⟨found.token, (rest.take found.extra).length⟩ := by
  rw [List.take_append_drop, List.length_take_of_le (element_append read []).2]
  exact read

private theorem leads_behind {c : Char} {rest before : List Char} {found : Element}
    {others : List Placed} (read : element c rest = .ok found) (behind : rest.drop found.extra =
      before ++ back) (h : Leads (p.after (c :: rest.take found.extra)) before others back) :
    c :: rest = c :: rest.take found.extra ++ before ++ back ∧
      Leads p (c :: rest.take found.extra ++ before)
        ((found.token.map (Placed.mk · p)).toList ++ others) back := by
  refine ⟨?_, .cons (by rw [← behind]; exact element_parts read) h⟩
  rw [List.append_assoc, ← behind, List.cons_append, List.take_append_drop]

/-- **Whole elements lead to each token of a text**, and there it stands, or the text ends. -/
theorem exists_leads (h : scanFrom p cs = .ok tokens) (ht : t ∈ tokens) :
    ∃ front back before, cs = front ++ back ∧ t.position = p.after front ∧
      Leads p front before back ∧ (back = [] ∨ ∃ c more rest, back = c :: (more ++ rest) ∧
        element c (more ++ rest) = .ok ⟨some t.token, more.length⟩) := by
  fun_induction scanFrom p cs generalizing tokens with
  | case1 p =>
    cases h
    obtain rfl := List.mem_singleton.mp ht
    exact ⟨[], [], [], rfl, rfl, .nil _ _, .inl rfl⟩
  | case2 | case3 => cases h
  | case4 p c rest found read others rest' token isToken ih =>
    cases h
    rcases List.mem_cons.mp ht with rfl | ht
    · have parts := element_parts read
      rw [isToken] at parts
      refine ⟨[], c :: rest, [], rfl, rfl, .nil _ _, .inr ⟨c, _, _, ?_, parts⟩⟩
      rw [List.take_append_drop]
    · obtain ⟨front, back, before, split, place, leads, stands⟩ := ih rest' ht
      obtain ⟨whole, leads'⟩ := leads_behind read split leads
      refine ⟨_, back, _, whole, ?_, leads', stands⟩
      rw [place, ← Position.after_append]
  | case5 p c rest found read others rest' isGap ih =>
    cases h
    obtain ⟨front, back, before, split, place, leads, stands⟩ := ih rest' ht
    obtain ⟨whole, leads'⟩ := leads_behind read split leads
    refine ⟨_, back, _, whole, ?_, leads', stands⟩
    rw [place, ← Position.after_append]

/-- A place in a text: its start, directly in front of a token, which may be the end of the text, or
directly behind one. -/
inductive Seam (text : String) (tokens : List Placed) : List Char → List Char → Prop
  | start : Seam text tokens [] text.toList
  | inFront {t : Placed} {front back : List Char} : t ∈ tokens → text.toList = front ++ back →
      t.position = Position.start.after front → Seam text tokens front back
  | behind {t : Placed} {front : List Char} {c : Char} {more back : List Char} : t ∈ tokens →
      text.toList = front ++ c :: (more ++ back) →
      t.position = Position.start.after front →
      element c (more ++ back) = .ok ⟨some t.token, more.length⟩ →
      Seam text tokens (front ++ c :: more) back

/-- A token starts with no blank and no slash, nor with a point. -/
private theorem start_of_token {c : Char} {rest : List Char} {token : Token} {extra : Nat}
    (h : element c rest = .ok ⟨some token, extra⟩) : c ≠ '\n' ∧ c ≠ '/' ∧ c ≠ '.' := by
  refine ⟨?_, ?_, ?_⟩
  · rintro rfl
    have blank : isBlank '\n' = true := by decide
    simp [element, blank] at h
  · rintro rfl
    rcases element_slash h with ⟨-, found⟩ | ⟨-, _, -, found⟩ <;> cases found
  · rintro rfl
    have blank : isBlank '.' = false := by decide
    have word : isWordStart '.' = false := by decide +kernel
    have digit : Char.isDigit '.' = false := by decide
    simp [element, blank, word, startsNumber, digit, sign] at h

theorem Seam.eq_append {text : String} (seam : Seam text tokens front back) :
    text.toList = front ++ back := by
  cases seam with
  | start => rfl
  | inFront _ whole _ => exact whole
  | behind _ whole _ _ => simpa using whole

/-- **Whole elements lead to a seam**, also with a gap in it. -/
theorem Seam.leads {text : String} (scanned : scan text = .ok tokens)
    (seam : Seam text tokens front back) (gap : Gap) :
    ∃ before, Leads Position.start front before back ∧
      (back = [] ∧ EndsInComment Position.start front ∨
        Leads Position.start front before (gap.chars ++ back)) := by
  cases seam with
  | start => exact ⟨[], .nil _ _, .inr (.nil _ _)⟩
  | @inFront t front back ht whole place =>
    obtain ⟨front', back', before, whole', place', leads, stands⟩ := exists_leads scanned ht
    obtain rfl := Position.eq_of_after_eq (whole.symm.trans whole') (place.symm.trans place')
    obtain rfl := List.append_cancel_left (whole.symm.trans whole')
    refine ⟨before, leads, or_iff_not_imp_left.mpr fun inside => ?_⟩
    refine leads.replace (gap.replaces _) fun stops => .inr ?_
    rcases stands with rfl | ⟨c, more, rest, rfl, read⟩
    · exact ⟨rfl, fun comment => inside ⟨rfl, comment⟩⟩
    · exact absurd (by simpa using stops c rfl) (start_of_token read).1
  | @behind t front c more back ht whole place read =>
    obtain ⟨front', back', before, whole', place', leads, -⟩ := exists_leads scanned ht
    obtain rfl := Position.eq_of_after_eq (whole.symm.trans whole') (place.symm.trans place')
    obtain rfl := List.append_cancel_left (whole.symm.trans whole')
    obtain ⟨-, slash, point⟩ := start_of_token read
    have leads' : Leads Position.start front before (c :: more ++ (gap.chars ++ back)) :=
      leads.replace (.of_head point) fun stops => .inl fun e he => stops e he
    refine ⟨_, leads.concat read, .inr (leads'.concat ?_)⟩
    exact element_replace read (gap.replaces back) fun here => absurd here slash

/-! ## Texts with a gap -/

private theorem scanFrom_append {gap : List Char} (h : Spells Anything gap []) (p : Position)
    (rest : List Char) : scanFrom p (gap ++ rest) = scanFrom (p.after gap) rest := by
  obtain ⟨placed, empty, scanned⟩ := h rest trivial p
  obtain rfl := List.map_eq_nil_iff.mp empty
  rw [scanned]
  cases scanFrom (p.after gap) rest <;> rfl

/-- Elements in front of a place have their tokens there. -/
theorem Leads.before (h : Leads p front tokens back) :
    ∀ t ∈ tokens, t.position.Before (p.after front) := by
  induction h with
  | nil => simp
  | @cons p c more token rest tokens back _ _ ih =>
    intro t ht
    rw [Position.after_append]
    rcases List.mem_append.mp ht with ht | ht
    · obtain ⟨token, -, rfl⟩ := Option.map_eq_some_iff.mp (Option.mem_toList.mp ht)
      rw [← Position.after_append]
      exact p.before_after (by simp)
    · exact ih t ht

/-- A text that begins elsewhere has the same tokens in the places that correspond. -/
theorem scanFrom_moved {q : Position} {move : Position → Position}
    (h : ∀ cs, move (p.after cs) = q.after cs) (scanned : scanFrom p cs = .ok tokens) :
    scanFrom q cs = .ok (tokens.map fun t => ⟨t.token, move t.position⟩) := by
  have here : move p = q := h []
  fun_induction scanFrom p cs generalizing q tokens with
  | case1 p =>
    cases scanned
    rw [scanFrom, ← here]
    rfl
  | case2 | case3 => cases scanned
  | case4 p c rest found read others rest' token isToken ih =>
    cases scanned
    have behind := ih (fun cs => by rw [← Position.after_append, ← Position.after_append, h]) rest'
      (h _)
    rw [scanFrom]
    simp only [read, behind, isToken, List.map_cons, here]
  | case5 p c rest found read others rest' isGap ih =>
    cases scanned
    have behind := ih (fun cs => by rw [← Position.after_append, ← Position.after_append, h]) rest'
      (h _)
    rw [scanFrom]
    simp only [read, behind, isGap]

/-- The text behind a gap is scanned as if nothing stood between. -/
private theorem Seam.scanFrom_eq {text : String} (scanned : scan text = .ok tokens)
    (seam : Seam text tokens front back) {gap : Gap} (fits : gap.Fits front back) :
    ∃ before, Leads Position.start front before back ∧
      scanFrom Position.start (front ++ gap.chars ++ back) =
        (scanFrom (Position.start.after (front ++ gap.chars)) back).map (before ++ ·) := by
  obtain ⟨before, leads, ⟨rfl, comment⟩ | leads'⟩ := seam.leads scanned gap
  · -- The comment at the end goes on into the gap, up to the first line feed there.
    refine ⟨before, leads, ?_⟩
    obtain ⟨inLine, blanks, parts, noFeed, stops, blank⟩ := fits.parts comment
    obtain ⟨before', absorbs⟩ := comment.leads
    obtain rfl : before' = before := by
      have once := (absorbs [] [] (by simp) (stopsAt_nil _)).scanFrom_eq
      rw [List.append_nil, List.append_nil] at once
      have twice := leads.scanFrom_eq
      rw [List.append_nil, once, scanFrom] at twice
      exact List.append_cancel_right (Except.ok.inj twice)
    have last := (absorbs inLine blanks noFeed stops).scanFrom_eq
    have passed := scanFrom_append (spells_blanks blank) (Position.start.after (front ++ inLine)) []
    rw [List.append_nil] at passed ⊢
    rw [parts, ← List.append_assoc, last, passed, ← Position.after_append]
  · refine ⟨before, leads, ?_⟩
    rw [List.append_assoc, leads'.scanFrom_eq, scanFrom_append gap.spells_nothing,
      ← Position.after_append]

/-- **A gap changes no token.**  The text with a gap in a seam has the same tokens in the same
order; those in front of the seam stay where they are, and those behind it move with it. -/
theorem scan_inserted {text : String} (scanned : scan text = .ok tokens)
    (seam : Seam text tokens front back) {gap : Gap} (fits : gap.Fits front back) :
    scan (String.ofList (front ++ gap.chars ++ back)) =
      .ok (tokens.map (Placed.pushed (Position.start.after front)
        (Position.start.after (front ++ gap.chars)))) := by
  obtain ⟨before, leads, whole⟩ := seam.scanFrom_eq scanned fits
  have here := leads.scanFrom_eq
  rw [← seam.eq_append, ← scan, scanned] at here
  cases behind : scanFrom (Position.start.after front) back with
  | error error =>
    rw [behind] at here
    cases here
  | ok after =>
    rw [behind] at here
    obtain rfl := Except.ok.inj here
    have down : (Position.start.after front).line ≤
        (Position.start.after (front ++ gap.chars)).line := by
      rw [Position.after_append, Position.line_after _ gap.chars]
      exact Nat.le_add_right ..
    have moved := @scanFrom_moved _ _ _ _ (Position.pushed · _ _) (Position.pushed_after down)
      behind
    have stay : ∀ t ∈ before, t.pushed (Position.start.after front)
        (Position.start.after (front ++ gap.chars)) = t := fun t ht => by
      rw [Placed.pushed, Position.pushed, if_pos (leads.before t ht)]
    rw [scan, String.toList_ofList, whole, moved, List.map_append, List.map_congr_left stay,
      List.map_id']
    rfl

end Token

end Compliance
