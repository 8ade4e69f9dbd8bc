import Compliance.Proofs.Text.Digits
import Compliance.Text.Blank
import Compliance.Text.Quoted

/-!
# Plain texts

Numbers, addresses and dates are written with a few characters of which none is
blank and none has to be escaped.  Such a text survives all that is done to a
text before it is read: trimming, and quoting and unquoting.

## Main definitions

* `isPlain c` — `c` is neither blank nor changed by quoting, and of use in a literal.
* `trim_of_plain`, `unquote_of_plain`, `quote_of_plain` — plain texts stay what they are.
-/

namespace Compliance.Text

/-- The visible ASCII characters from `+` to `z`, without the slash and the backslash. -/
def isPlain (c : Char) : Bool :=
  0x2B ≤ c.toNat && c.toNat ≤ 0x7A && c.toNat ≠ 0x2F && c.toNat ≠ 0x5C

theorem isPlain_of_isDigit {c : Char} (h : c.isDigit = true) : isPlain c = true := by
  simp only [Char.isDigit, Bool.and_eq_true, decide_eq_true_eq, ge_iff_le, UInt32.le_iff_toNat_le]
    at h
  obtain ⟨low, high⟩ := h
  have low' : 48 ≤ c.toNat := low
  have high' : c.toNat ≤ 57 := high
  simp only [isPlain, Bool.and_eq_true, decide_eq_true_eq]
  omega

theorem isPlain_all_of_isDigit {cs : List Char} (h : cs.all Char.isDigit = true) :
    cs.all isPlain = true := by
  rw [List.all_eq_true] at h ⊢
  intro c hc
  exact isPlain_of_isDigit (h c hc)

theorem isBlank_of_isPlain {c : Char} (h : isPlain c = true) : isBlank c = false := by
  simp only [isPlain, Bool.and_eq_true, decide_eq_true_eq] at h
  simp only [isBlank, blankRanges, List.any_cons, List.any_nil, Bool.or_false, Bool.or_eq_false_iff,
    Bool.and_eq_false_iff, decide_eq_false_iff_not]
  omega

/-- Nothing is trimmed from a text that no blank stands at either end of. -/
theorem trim_of_ends {cs : List Char} (first : StopsAt isBlank cs)
    (last : StopsAt isBlank cs.reverse) : trim (String.ofList cs) = String.ofList cs := by
  have dropNone {ds : List Char} (h : StopsAt isBlank ds) : ds.dropWhile isBlank = ds :=
    dropWhile_append List.all_nil h
  rw [trim, String.toList_ofList, trimStart, dropNone first, trimEnd, dropNone last,
    List.reverse_reverse]

theorem trim_of_plain {cs : List Char} (h : cs.all isPlain = true) :
    trim (String.ofList cs) = String.ofList cs := by
  have stops {ds : List Char} (hd : ds.all isPlain = true) : StopsAt isBlank ds := fun c hc =>
    isBlank_of_isPlain (List.all_eq_true.mp hd c (List.mem_of_mem_head? hc))
  exact trim_of_ends (stops h) (stops (List.all_reverse.trans h))

theorem unquote_of_plain {cs : List Char} (h : cs.all isPlain = true) :
    unquote (String.ofList cs) = String.ofList cs := by
  rw [unquote]
  split
  · next quoted =>
    rw [String.toList_ofList] at quoted
    rw [quoted, List.all_cons, Bool.and_eq_true] at h
    exact absurd h.1 (by decide)
  · rfl

theorem escapeAll_append (cs ds : List Char) :
    escapeAll (cs ++ ds) = escapeAll cs ++ escapeAll ds := List.flatMap_append

theorem escapeAll_of_plain {cs : List Char} (h : cs.all isPlain = true) : escapeAll cs = cs := by
  have same : ∀ c ∈ cs, escape c = [c] := by
    intro c hc
    have plain := List.all_eq_true.mp h c hc
    simp only [escape]
    split
    · exact absurd plain (by decide)
    · exact absurd plain (by decide)
    · exact absurd plain (by decide)
    · exact absurd plain (by decide)
    · rfl
  rw [escapeAll, List.flatMap_def, List.map_congr_left same, ← List.flatMap_def,
    List.flatMap_singleton']

theorem quote_of_plain {cs : List Char} (h : cs.all isPlain = true) :
    quote (String.ofList cs) = "\"" ++ String.ofList cs ++ "\"" := by
  rw [quote, String.toList_ofList, escapeAll_of_plain h]
  apply String.toList_injective
  simp

end Compliance.Text
