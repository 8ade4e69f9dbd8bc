import Compliance.Proofs.Token.Layout

/-!
# Writing tokens down

Tokens that are written down with a space between any two of them are a text with just
these tokens, whatever the strings among them hold: what quoting escapes is what reading
resolves, and no word, number or sign goes on into a space.  The tokens of a text have
the forms of tokens, so that this is also so of the tokens of any text, however they are
written there.

## Main definitions

* `Token.joined ts` — tokens written one after the other.
* `Token.Formed.spells` — a token is spelled as it is written.
* `Token.tokens_reread` — written tokens are read back, and so are those of any text.
-/

namespace Compliance

open Text

namespace Token

/-- Tokens with single spaces between. -/
def joined (ts : List Token) : String := " ".intercalate (ts.map text)

/-- What is always written the same is spelled so, up to a separator. -/
theorem spells_fixed {t : Token} (fixed : t.isSign = true) :
    Spells Separate t.text.toList [t] := by
  have single {c : Char} {one two : Token} (h : ∀ rest, Compliance.sign c rest =
      if rest.head? = some '=' then some (two, 1) else some (one, 0)) :
      Spells Separate [c] [one] := by
    refine spells_sign fun rest hr => ?_
    rw [List.nil_append, h, if_neg (head?_ne_of_separate hr)]
    rfl
  have always {c : Char} {cs : List Char} {t : Token}
      (h : ∀ rest, Compliance.sign c (cs ++ rest) = some (t, cs.length)) :
      Spells Separate (c :: cs) [t] :=
    spells_sign fun rest _ => h rest
  cases t with
  | word | string | int | float | eof => cases fixed
  | assign | less | greater => exact single fun _ => rfl
  | _ => exact always fun _ => rfl

/-- **A token of one of the forms is spelled as it is written**, up to a separator. -/
theorem Formed.spells {t : Token} (h : t.Formed) : Spells Separate t.text.toList [t] := by
  cases t with
  | word text => exact spells_word h
  | string content => exact (spells_quoted content).weaken fun _ _ => trivial
  | int value => exact spells_int value
  | float literal =>
    obtain ⟨negative, whole, fraction, nonempty, parts⟩ := h
    have spelled := spells_float negative parts.whole_ne nonempty parts.whole_digits
      parts.fraction_digits
    have same : literal = String.ofList ((if negative then '-' :: whole else whole) ++
        '.' :: fraction) := by
      rw [parts.text_eq]
      cases negative <;> rfl
    rw [← same] at spelled
    rwa [text, same, String.toList_ofList, ← same]
  | eof => exact h.elim
  | _ => exact spells_fixed rfl

/-- Tokens with single spaces between are spelled as they are written. -/
theorem spells_joined {ts : List Token} (h : ∀ t ∈ ts, t.Formed) :
    Spells Separate (joined ts).toList ts := by
  induction ts with
  | nil => exact .nil
  | cons t more ih =>
    rw [List.forall_mem_cons] at h
    cases more with
    | nil =>
      rw [joined, List.map_cons, List.map_nil, String.intercalate_singleton]
      exact h.1.spells
    | cons u more =>
      have rest := ih h.2
      rw [joined, List.map_cons] at rest ⊢
      rw [List.map_cons, String.intercalate_cons_cons, String.toList_append, String.toList_append,
        List.append_assoc]
      exact h.1.spells.spaced rest

/-- Written tokens are those of the text, and then its end. -/
theorem exists_reread {ts : List Token} (h : ∀ t ∈ ts, t.Formed) :
    ∃ placed, scan (joined ts) = .ok placed ∧ placed.map Placed.token = ts ++ [.eof] :=
  scan_of_spells (spells_joined h) separate_nil

/-- The tokens of a text have the forms of tokens, up to its end. -/
theorem exists_formed {source : String} {placed : List Placed} (h : scan source = .ok placed) :
    ∃ ts, placed.map Placed.token = ts ++ [.eof] ∧ ∀ t ∈ ts, t.Formed := by
  obtain ⟨others, rfl, laid⟩ := laid_of_scanFrom .start rfl h
  refine ⟨others.map Placed.token, by simp, fun t ht => ?_⟩
  obtain ⟨u, hu, rfl⟩ := List.mem_map.mp ht
  obtain ⟨_, _, _, -, -, written⟩ := laid.exists_written u hu
  exact written.formed

/-- **Written tokens are read back.**  Tokens of the forms of tokens, written one after the other
with single spaces between, are a text with these tokens and then its end.  The tokens of any text
are of these forms up to its end, so that they are read back as well. -/
theorem tokens_reread :
    (∀ ts : List Token, (∀ t ∈ ts, t.Formed) →
      ∃ placed, scan (joined ts) = .ok placed ∧ placed.map Placed.token = ts ++ [.eof]) ∧
    ∀ source placed, scan source = .ok placed →
      ∃ ts again, placed.map Placed.token = ts ++ [.eof] ∧ (∀ t ∈ ts, t.Formed) ∧
        scan (joined ts) = .ok again ∧ again.map Placed.token = placed.map Placed.token := by
  refine ⟨fun ts formed => exists_reread formed, fun source placed scanned => ?_⟩
  obtain ⟨ts, tokens, formed⟩ := exists_formed scanned
  obtain ⟨again, scanned', tokens'⟩ := exists_reread formed
  exact ⟨ts, again, tokens, formed, scanned', tokens'.trans tokens.symm⟩

/-- A string with all that is escaped in it and the least integer are read back, and so are the
tokens of a text with a comment, zeros in front of an integer and an escape that stands for
itself. -/
theorem tokens_reread_escapes :
    let ts := [.word "prod-web", .string "say \"a\\b\"\n\tc", .int Int64.minValue, .float "-2.50",
      .less, .assign, .atMost, .braceOpen]
    let source := "x<=007/* y */\"\\q\""
    let placed := [⟨.word "x", ⟨1, 1⟩⟩, ⟨.atMost, ⟨1, 2⟩⟩, ⟨.int 7, ⟨1, 4⟩⟩,
      ⟨.string "\\q", ⟨1, 14⟩⟩, ⟨.eof, ⟨1, 18⟩⟩]
    (∀ t ∈ ts, Formed t) ∧ scan source = .ok placed ∧
    joined ts = "prod-web \"say \\\"a\\\\b\\\"\\n\\tc\" -9223372036854775808 -2.50 < = <= \x7b" ∧
    (∃ placed, scan (joined ts) = .ok placed ∧ placed.map Placed.token = ts ++ [.eof]) ∧
    ∃ ts again, placed.map Placed.token = ts ++ [.eof] ∧ (∀ t ∈ ts, t.Formed) ∧
      scan (joined ts) = .ok again ∧ again.map Placed.token = placed.map Placed.token := by
  intro ts source placed
  have word : isWord "prod-web" = true := by decide +kernel
  have formed : ∀ t ∈ ts, Formed t := by
    simp only [ts, List.forall_mem_cons]
    refine ⟨word, trivial, trivial, ?_, trivial, trivial, trivial, trivial, by simp⟩
    exact ⟨true, ['2'], ['5', '0'], by simp, ⟨rfl, by simp, rfl, rfl⟩⟩
  have scanned : scan source = .ok placed := by decide +kernel
  exact ⟨formed, scanned, by decide +kernel, tokens_reread.1 ts formed,
    tokens_reread.2 source placed scanned⟩

end Token

end Compliance
