import Compliance.Proofs.Token.Forward

/-!
# Passing tokens

The end of a text is never left behind, but any other token may be passed: then the cursor
stands behind it, with fewer tokens ahead.  So what passes a token whenever it has a value
can be repeated as often as there are tokens, and no more.  In a sequence it is enough that
one part passes a token, if the others move forward.

## Main definitions

* `Cursor.Behind d c` — `d` stands behind the token that `c` stands on.
* `Cursor.Ended.behind_advance` — a step passes any token but the end of the text.
* `Parser.Passes P c` — from `c` the parser has a value only behind the current token.
-/

namespace Compliance

namespace Cursor

variable {c d e : Cursor}

/-- A cursor stands behind the token that another stands on. -/
def Behind (d c : Cursor) : Prop := d.placed <:+ c.ahead

namespace Behind

theorem suffix (h : d.Behind c) : d.placed <:+ c.placed :=
  List.IsSuffix.trans h (List.suffix_cons ..)

theorem size_lt (h : d.Behind c) : d.size < c.size := Nat.lt_of_succ_le (List.IsSuffix.length_le h)

/-- What is further on is behind as well. -/
theorem onward (h : d.Behind c) (further : e.placed <:+ d.placed) : e.Behind c :=
  List.IsSuffix.trans further h

/-- What is behind a token further on is behind this one as well. -/
theorem of_suffix (h : e.Behind d) (suffix : d.placed <:+ c.placed) : e.Behind c := by
  rcases List.suffix_cons_iff.mp suffix with same | behind
  · have ahead : d.ahead = c.ahead := (List.cons.inj same).2
    rwa [Behind, ← ahead]
  · exact onward behind h.suffix

end Behind

theorem Ended.behind_advance (h : c.Ended) (other : c.token ≠ .eof) : c.advance.Behind c := by
  obtain ⟨next, more, ahead⟩ := List.exists_cons_of_ne_nil (h.ahead_ne_nil other)
  simp [Behind, placed, advance, ahead]

end Cursor

namespace Parser

variable {α β : Type} {P : Parser α} {c : Cursor}

/-- From a cursor a parser has a value only behind the current token. -/
def Passes (P : Parser α) (c : Cursor) : Prop := ∀ ⦃a d⦄, P c = .ok a d → d.Behind c

/-- What has been passed stays behind. -/
theorem Passes.bind {k : α → Parser β} (h : P.Passes c) (hk : ∀ a, Forward (k a)) :
    (P >>= k).Passes c := by
  intro b e result
  obtain ⟨a, d, first, second⟩ := bind_eq_ok.mp result
  exact (h first).onward ((hk a).ok second)

/-- What is passed further on is passed. -/
theorem Forward.passes {k : α → Parser β} (h : Forward P) (ended : c.Ended)
    (hk : ∀ a d, d.Ended → (k a).Passes d) : (P >>= k).Passes c := by
  intro b e result
  obtain ⟨a, d, first, second⟩ := bind_eq_ok.mp result
  have further : d.placed <:+ c.placed := h.ok first
  exact (hk a d (ended.of_suffix further) second).of_suffix further

theorem passes_token {k : Token → Parser β} (h : (k c.token).Passes c) : (token >>= k).Passes c := h

theorem passes_ite {test : Prop} [Decidable test] {Q : Parser α} (hP : test → P.Passes c)
    (hQ : ¬ test → Q.Passes c) : (if test then P else Q).Passes c := by
  split
  · next yes => exact hP yes
  · next no => exact hQ no

theorem passes_advance (ended : c.Ended) (other : c.token ≠ .eof) : advance.Passes c := by
  intro u d result
  cases result
  exact ended.behind_advance other

/-- What always stops at a fault passes the current token, as it never has a value. -/
theorem passes_of_stops {k : α → Parser β} (h : ∀ c a d, P c ≠ .ok a d) : (P >>= k).Passes c :=
  fun b d result => absurd result (bind_ne_ok h k c b d)

theorem passes_expect {t : Token} (ended : c.Ended) (other : t ≠ .eof) : (expect t).Passes c := by
  intro u d result
  obtain ⟨rfl, rfl⟩ := expect_eq_ok.mp result
  exact ended.behind_advance other

theorem passes_expectWord (word : String) (ended : c.Ended) : (expectWord word).Passes c :=
  passes_expect ended nofun

theorem passes_nameOf (phrase : String) (ended : c.Ended) : (nameOf phrase).Passes c := by
  have named (name : String) (other : c.token ≠ .eof) : (do
      if name.isEmpty then refuse (.emptyName phrase)
      advance
      return name : Parser String).Passes c := by
    split
    · exact passes_of_stops fun _ a _ => refuse_ne_ok _ a
    · exact (passes_advance ended other).bind fun _ => .pure name
  intro name d result
  rw [nameOf, token_bind] at result
  cases current : c.token with
  | word text =>
    rw [current] at result
    exact named text (by simp [current]) result
  | string content =>
    rw [current] at result
    exact named content (by simp [current]) result
  | _ =>
    rw [current] at result
    exact absurd result (bind_ne_ok (fun _ a _ => unexpected_ne_ok phrase a) _ c name d)

end Parser

end Compliance
