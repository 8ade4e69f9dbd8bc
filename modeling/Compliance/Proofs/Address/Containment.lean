import Compliance.Proofs.Address.Text

/-!
# What an address block contains

A block contains an address if the two agree in the bits that the length of the
block counts, and are of one family.  The mask that decides this has just these
bits set; it is made by a shift that stays below the width of the word, so nothing
wraps around at the ends, where no bit or every bit counts.

## Main definitions

* `Address.Agrees count a b` — two addresses of one family with the same first bits.
* `Network.getMsbD_mask` — the bits of a mask.
* `Network.contains_iff_agrees` — containment in a block, for all blocks and addresses.
-/

namespace Compliance

/-! ## Leading bits -/

namespace Address

/-- A bit of an address, counted from the highest. -/
def bit (i : Nat) : Address → Bool
  | .v4 bits => bits.getMsbD i
  | .v6 bits => bits.getMsbD i

/-- Two addresses are of one family and have the same first bits. -/
def Agrees (count : Nat) (a b : Address) : Prop :=
  a.isV4 = b.isV4 ∧ ∀ i < count, a.bit i = b.bit i

variable {a b c : Address} {count fewer : Nat}

theorem Agrees.symm (h : Agrees count a b) : Agrees count b a :=
  ⟨h.1.symm, fun i hi => (h.2 i hi).symm⟩

theorem Agrees.trans (h : Agrees count a b) (h' : Agrees count b c) : Agrees count a c :=
  ⟨h.1.trans h'.1, fun i hi => (h.2 i hi).trans (h'.2 i hi)⟩

theorem Agrees.mono (h : Agrees count a b) (le : fewer ≤ count) : Agrees fewer a b :=
  ⟨h.1, fun i hi => h.2 i (Nat.lt_of_lt_of_le hi le)⟩

theorem width_eq_of_family (h : a.isV4 = b.isV4) : a.width = b.width := by
  cases a <;> cases b <;> first | rfl | cases h

theorem agrees_zero_iff : Agrees 0 a b ↔ a.isV4 = b.isV4 :=
  ⟨And.left, fun h => ⟨h, fun _ hi => absurd hi (Nat.not_lt_zero _)⟩⟩

theorem agrees_width_iff : Agrees a.width a b ↔ a = b := by
  refine ⟨fun ⟨family, bits⟩ => ?_, fun same => same ▸ ⟨rfl, fun _ _ => rfl⟩⟩
  cases a with
  | v4 x =>
    cases b with
    | v4 y => exact congrArg _ (BitVec.eq_of_getMsbD_eq bits)
    | v6 y => cases family
  | v6 x =>
    cases b with
    | v4 y => cases family
    | v6 y => exact congrArg _ (BitVec.eq_of_getMsbD_eq bits)

end Address

/-! ## Masks -/

namespace Network

variable {width length : Nat}

/-- **The bits of a mask**: it has the first ones set, as many as it counts. -/
theorem getMsbD_mask (h : length ≤ width) (i : Nat) :
    (mask width length).getMsbD i = decide (i < length) := by
  rw [mask]
  split
  · next zero => simp [zero]
  · next nonzero =>
    have within : i + (width - length) < width ↔ i < length := by omega
    rw [BitVec.getMsbD_shiftLeft, BitVec.getMsbD_allOnes, decide_eq_decide]
    exact within

/-- Words that a mask makes equal agree in the bits that it counts. -/
theorem and_mask_eq_iff (h : length ≤ width) (x y : BitVec width) :
    x &&& mask width length = y &&& mask width length ↔
      ∀ i < length, x.getMsbD i = y.getMsbD i := by
  constructor
  · intro same i hi
    have bit := congrArg (·.getMsbD i) same
    simpa [getMsbD_mask h, hi] using bit
  · intro same
    apply BitVec.eq_of_getMsbD_eq
    intro i _
    rw [BitVec.getMsbD_and, BitVec.getMsbD_and, getMsbD_mask h]
    by_cases hi : i < length
    · rw [same i hi]
    · simp [hi]

/-- A mask with any bit comes from a shift by less than the width: with the bits that count, the
shift makes up the width. -/
theorem exists_shift (h : length ≤ width) (nonzero : length ≠ 0) :
    ∃ shift < width, length + shift = width ∧
      mask width length = BitVec.allOnes width <<< shift :=
  ⟨width - length, by omega, by omega, if_neg nonzero⟩

/-! ## Blocks -/

/-- What making a block of an address and a length gives. -/
theorem make_eq_ok_iff {a : Address} {n : Network} :
    make a length = .ok n ↔ n.address = a ∧ n.length = length := by
  constructor
  · intro made
    unfold make of? at made
    split at made
    · next found =>
      split at found
      · cases found
        cases made
        exact ⟨rfl, rfl⟩
      · cases found
    · cases made
  · rintro ⟨rfl, rfl⟩
    rw [make, of?, dif_pos n.length_le]

theorem exists_make {a : Address} (h : length ≤ a.width) :
    ∃ n : Network, make a length = .ok n ∧ n.address = a ∧ n.length = length :=
  ⟨⟨a, length, h⟩, make_eq_ok_iff.mpr ⟨rfl, rfl⟩, rfl, rfl⟩

/-- A block contains the addresses that agree with its own in the bits that count. -/
theorem contains_iff (n : Network) (a : Address) :
    n.contains a = true ↔ n.address.Agrees n.length a := by
  obtain ⟨base, length, h⟩ := n
  cases base with
  | v4 x =>
    cases a with
    | v4 y =>
      simpa [contains, Address.Agrees, Address.bit, Address.isV4] using
        @and_mask_eq_iff 32 length h x y
    | v6 y => simp [contains, Address.Agrees, Address.isV4]
  | v6 x =>
    cases a with
    | v4 y => simp [contains, Address.Agrees, Address.isV4]
    | v6 y =>
      simpa [contains, Address.Agrees, Address.bit, Address.isV4] using
        @and_mask_eq_iff 128 length h x y

/-- **Containment is agreement of leading bits.**  A block contains an address just if it is of the
family of the block's address and agrees with it in the bits that the length counts: with no bits
all addresses of the family, with all bits the one address.  The further bits of the block's
address do not matter, and a longer block lies in each shorter one of its address.  The mask is a
shift by less than the width, if it has any bit, and a block is read back from its text. -/
theorem contains_iff_agrees (n : Network) :
    make n.address n.length = .ok n ∧ read n.text = .ok n ∧
    (∀ a, n.contains a = true ↔
      a.isV4 = n.address.isV4 ∧ ∀ i < n.length, a.bit i = n.address.bit i) ∧
    (n.length = 0 → ∀ a, n.contains a = true ↔ a.isV4 = n.address.isV4) ∧
    (n.length = n.address.width → ∀ a, n.contains a = true ↔ a = n.address) ∧
    (∀ base, n.address.Agrees n.length base →
      ∃ m, make base n.length = .ok m ∧ ∀ a, m.contains a = n.contains a) ∧
    (∀ shorter ≤ n.length, ∃ m, make n.address shorter = .ok m ∧
      ∀ a, n.contains a = true → m.contains a = true) ∧
    (n.length = 0 ∧ mask n.address.width n.length = 0 ∨
      ∃ shift < n.address.width, n.length + shift = n.address.width ∧
        mask n.address.width n.length = BitVec.allOnes n.address.width <<< shift) := by
  refine ⟨make_eq_ok_iff.mpr ⟨rfl, rfl⟩, read_text n, fun a => ?_, fun zero a => ?_,
    fun full a => ?_, fun base agrees => ?_, fun shorter le => ?_, ?_⟩
  · rw [contains_iff]
    exact ⟨Address.Agrees.symm, Address.Agrees.symm⟩
  · rw [contains_iff, zero, Address.agrees_zero_iff, eq_comm]
  · rw [contains_iff, full, Address.agrees_width_iff, eq_comm]
  · obtain ⟨m, made, address, length⟩ :=
      exists_make (Address.width_eq_of_family agrees.1 ▸ n.length_le)
    refine ⟨m, made, fun a => ?_⟩
    rw [Bool.eq_iff_iff, contains_iff, contains_iff, address, length]
    exact ⟨agrees.trans, agrees.symm.trans⟩
  · obtain ⟨m, made, address, length⟩ := exists_make (Nat.le_trans le n.length_le)
    refine ⟨m, made, fun a inside => ?_⟩
    rw [contains_iff] at inside ⊢
    rw [address, length]
    exact inside.mono le
  · by_cases zero : n.length = 0
    · exact .inl ⟨zero, if_pos zero⟩
    · exact .inr (exists_shift n.length_le zero)

end Network

end Compliance
