/-!
# Blank characters

White space as the language understands it, and the removal of it at the two
ends of a text.  The class is the standard property *White_Space*: line ends and
the no-break and ideographic spaces are in it, zero-width characters are not.

## Main definitions

* `isBlank c` — `c` is white space.
* `trim s` — `s` without its outer white space.
-/

namespace Compliance.Text

/-- The code points with the property *White_Space*. -/
def blankRanges : List (Nat × Nat) :=
  [(0x9, 0xD), (0x20, 0x20), (0x85, 0x85), (0xA0, 0xA0), (0x1680, 0x1680), (0x2000, 0x200A),
   (0x2028, 0x2029), (0x202F, 0x202F), (0x205F, 0x205F), (0x3000, 0x3000)]

/-- White space, which separates tokens and is dropped around references, addresses and dates. -/
def isBlank (c : Char) : Bool :=
  blankRanges.any fun (low, high) => low ≤ c.toNat && c.toNat ≤ high

/-! ## Trimming -/

/-- The characters from the first that is no blank on. -/
def trimStart (cs : List Char) : List Char := cs.dropWhile isBlank

/-- The characters up to the last that is no blank. -/
def trimEnd (cs : List Char) : List Char := (cs.reverse.dropWhile isBlank).reverse

/-- A text without the blanks at its two ends; blanks inside stay. -/
def trim (s : String) : String := String.ofList (trimEnd (trimStart s.toList))

/-- Trimming reads only the characters: the text that comes out is made of the trimmed list. -/
@[simp] theorem toList_trim (s : String) : (trim s).toList = trimEnd (trimStart s.toList) := by
  simp [trim]

end Compliance.Text
