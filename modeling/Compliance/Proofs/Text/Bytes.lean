import Mathlib.Data.List.Basic
import Mathlib.Data.String.Basic

/-!
# The order of texts is that of their bytes

Texts are compared character by character, and characters by their code points.  UTF-8
writes a character with a greater code point as bytes that come later, however many bytes
the two take, so texts stand in the same order when they are compared byte by byte.

## Main definitions

* `Text.bytes` — the bytes of a text in UTF-8.
* `Text.bytes_lt` — what comes first as a text comes first by its bytes.
-/

namespace Compliance.Text

/-- The bytes of a text in UTF-8. -/
def bytes (s : String) : List UInt8 := s.toByteArray.data.toList

theorem bytes_eq (s : String) : bytes s = s.toList.flatMap String.utf8EncodeChar := by
  rw [bytes, ← String.utf8Encode_toList, List.utf8Encode]
  simp

private theorem ofNat_cons_lt {a b : Nat} (ha : a < 256) (hb : b < 256) (l m : List UInt8) :
    UInt8.ofNat a :: l < UInt8.ofNat b :: m ↔ a < b ∨ a = b ∧ l < m := by
  rw [List.cons_lt_cons_iff, UInt8.lt_iff_toNat_lt, ← UInt8.toNat_inj]
  simp [Nat.mod_eq_of_lt ha, Nat.mod_eq_of_lt hb]

private theorem lt_iff_sixBits (n m : Nat) :
    n < m ↔ n / 64 < m / 64 ∨ n / 64 = m / 64 ∧ n % 64 < m % 64 := by
  omega

/-- A character in front of another has bytes in front of those of the other, whatever follows. -/
theorem encode_append_lt {c d : Char} (h : c < d) (l m : List UInt8) :
    String.utf8EncodeChar c ++ l < String.utf8EncodeChar d ++ m := by
  have less : c.val.toNat < d.val.toNat := h
  have top : d.val.toNat < 1114112 := by
    have valid := d.valid
    simp only [UInt32.isValidChar, Nat.isValidChar] at valid
    omega
  have shifts (n : Nat) : n / 4096 = n / 64 / 64 ∧ n / 262144 = n / 64 / 64 / 64 := by omega
  simp only [String.utf8EncodeChar, shifts]
  generalize c.val.toNat = v at *
  generalize d.val.toNat = w at *
  have last := lt_iff_sixBits v w
  have third := lt_iff_sixBits (v / 64) (w / 64)
  have second := lt_iff_sixBits (v / 64 / 64) (w / 64 / 64)
  -- The number of bytes does not decrease with the code point, and of two characters with equally
  -- many the first byte that differs decides.
  split_ifs <;> try omega
  all_goals
    simp (disch := omega) only [List.cons_append, List.nil_append, ofNat_cons_lt]
    omega

theorem flatMap_encode_lt {cs ds : List Char} (h : cs < ds) :
    cs.flatMap String.utf8EncodeChar < ds.flatMap String.utf8EncodeChar := by
  induction cs generalizing ds with
  | nil =>
    cases ds with
    | nil => exact absurd h (List.lt_irrefl _)
    | cons d ds =>
      obtain ⟨b, more, encoded⟩ :=
        List.exists_cons_of_ne_nil (String.utf8EncodeChar_ne_nil (c := d))
      simp [encoded]
  | cons c cs ih =>
    cases ds with
    | nil => exact absurd h (List.not_lt_nil _)
    | cons d ds =>
      simp only [List.flatMap_cons]
      rcases List.cons_lt_cons_iff.mp h with less | ⟨rfl, less⟩
      · exact encode_append_lt less _ _
      · exact List.append_left_lt (ih less)

/-- **What comes first as a text comes first by its bytes.** -/
theorem bytes_lt {s t : String} (h : s < t) : bytes s < bytes t := by
  rw [bytes_eq, bytes_eq]
  exact flatMap_encode_lt (String.lt_iff_toList_lt.mp h)

end Compliance.Text
