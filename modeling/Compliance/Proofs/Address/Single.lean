import Compliance.Predicate.Operator
import Compliance.Proofs.Text.Trimmed
import Mathlib.Data.List.TakeWhile

/-!
# An address and its block

A network without a slash is the block of one address, and containment in it is
equality with the address.  Equality as a predicate is a comparison, though, and
addresses of different families do not compare: there an address is neither equal
to the other one nor different from it, while it is outside of its block.

## Main definitions

* `Address.all_isAddressPart_of_read?` — what addresses are written with; a slash is not.
* `Network.read_bare` — the text of an address is read as the block of the address.
* `Network.contains_single` — what this block contains.
* `Predicate.single_network_iff_address` — predicates about the block and about the address.
-/

namespace Compliance

open Text

namespace Address

/-! ## What addresses are written with -/

/-- A digit of a group or an octet, or a sign between them. -/
def isAddressPart (c : Char) : Bool := isHex c || c = ':' || c = '.'

/-- Between a text and what is left of it stand parts of addresses only. -/
def Leaves (cs rest : List Char) : Prop := ∃ run, run.all isAddressPart = true ∧ cs = run ++ rest

variable {cs ds rest : List Char}

theorem Leaves.refl (cs : List Char) : Leaves cs cs := ⟨[], rfl, rfl⟩

theorem Leaves.trans (h : Leaves cs ds) (h' : Leaves ds rest) : Leaves cs rest := by
  obtain ⟨front, hf, rfl⟩ := h
  obtain ⟨back, hb, rfl⟩ := h'
  exact ⟨front ++ back, by rw [List.all_append, hf, hb]; rfl, (List.append_assoc ..).symm⟩

theorem Leaves.cons {c : Char} (part : isAddressPart c = true) (h : Leaves cs rest) :
    Leaves (c :: cs) rest := by
  obtain ⟨run, hr, rfl⟩ := h
  exact ⟨c :: run, by rw [List.all_cons, part, hr]; rfl, rfl⟩

/-- A text of which nothing is left. -/
theorem Leaves.all (h : Leaves cs []) : cs.all isAddressPart = true := by
  obtain ⟨run, hr, rfl⟩ := h
  rwa [List.append_nil]

private theorem leaves_dropWhile {p : Char → Bool} (h : ∀ c, p c = true → isAddressPart c = true)
    (cs : List Char) : Leaves cs (cs.dropWhile p) := by
  refine ⟨cs.takeWhile p, ?_, List.takeWhile_append_dropWhile.symm⟩
  rw [List.all_eq_true]
  exact fun c hc => h c (List.mem_takeWhile_imp hc)

theorem leaves_readOctet {n : Nat} (h : readOctet cs = some (n, rest)) : Leaves cs rest := by
  simp only [readOctet, takeDigits, List.span_eq_takeWhile_dropWhile] at h
  split at h
  · cases h
  · cases h
    exact leaves_dropWhile (fun c hc => by simp [isAddressPart, isHex, hc]) cs

theorem leaves_afterPoint (h : afterPoint cs = some rest) : Leaves cs rest := by
  unfold afterPoint at h
  split at h
  · cases h
    exact (Leaves.refl rest).cons rfl
  · cases h

theorem leaves_readOctets {n : Nat} (h : readOctets cs = some (n, rest)) : Leaves cs rest := by
  simp only [readOctets, Option.bind_eq_bind, Option.bind_eq_some_iff, Option.pure_def,
    Option.some.injEq] at h
  obtain ⟨⟨_, _⟩, a, _, hab, ⟨_, _⟩, b, _, hbc, ⟨_, _⟩, c, _, hcd, ⟨_, _⟩, d, same⟩ := h
  obtain ⟨-, rfl⟩ := Prod.mk.inj same
  exact (leaves_readOctet a).trans <| (leaves_afterPoint hab).trans <| (leaves_readOctet b).trans <|
    (leaves_afterPoint hbc).trans <| (leaves_readOctet c).trans <| (leaves_afterPoint hcd).trans <|
      leaves_readOctet d

theorem leaves_readGroup {n : Nat} (h : readGroup cs = some (n, rest)) : Leaves cs rest := by
  simp only [readGroup, List.span_eq_takeWhile_dropWhile] at h
  split at h
  · cases h
  · cases h
    exact leaves_dropWhile (fun c hc => by simp [isAddressPart, hc]) cs

/-- Groups are read up to a place in front of which parts of addresses stand. -/
theorem leaves_readGroups (limit : Nat) (isFirst : Bool) (cs : List Char) :
    Leaves cs (readGroups limit isFirst cs).rest := by
  induction limit generalizing isFirst cs with
  | zero => exact .refl cs
  | succ limit ih =>
    unfold readGroups
    simp only
    split
    · exact .refl cs
    · next body found =>
      have start : Leaves cs body := by
        split at found
        · exact Option.some.inj found ▸ .refl cs
        · split at found
          · exact Option.some.inj found ▸ (Leaves.refl _).cons rfl
          · cases found
      split
      · next octets =>
        split at octets
        · exact start.trans (leaves_readOctets octets)
        · cases octets
      · split
        · next group => exact start.trans ((leaves_readGroup group).trans (ih false _))
        · exact .refl cs

theorem all_isAddressPart_of_readV4 {a : Address} (h : readV4 cs = some a) :
    cs.all isAddressPart = true := by
  unfold readV4 at h
  split at h
  · next octets => exact (leaves_readOctets octets).all
  · cases h

theorem all_isAddressPart_of_readV6 {a : Address} (h : readV6 cs = some a) :
    cs.all isAddressPart = true := by
  have front := leaves_readGroups 8 true cs
  unfold readV6 at h
  simp only at h
  split at h
  · split at h
    · next ends => exact (ends ▸ front).all
    · cases h
  · split at h
    · cases h
    · split at h
      · next rest behind =>
        split at h
        · next ends =>
          have back := leaves_readGroups (7 - (readGroups 8 true cs).values.length) true rest
          rw [ends] at back
          rw [behind] at front
          exact (front.trans ((back.cons rfl).cons rfl)).all
        · cases h
      · cases h

/-- **Addresses are written with digits, colons and points only.** -/
theorem all_isAddressPart_of_read? {s : String} {a : Address} (h : read? s = some a) :
    s.toList.all isAddressPart = true := by
  rw [read?, Option.orElse_eq_orElse, Option.orElse_eq_or, Option.or_eq_some_iff] at h
  rcases h with v4 | ⟨-, v6⟩
  · exact all_isAddressPart_of_readV4 v4
  · exact all_isAddressPart_of_readV6 v6

end Address

/-! ## Bare addresses -/

namespace Network

/-- **The text of an address is that of the block of the address alone.** -/
theorem read_bare {s : String} {a : Address} (h : Address.read? (trim s) = some a) :
    read s = .ok (single a) := by
  have parts := Address.all_isAddressPart_of_read? h
  have noSlash : s.toList.all (· ≠ '/') = true := by
    rw [List.all_eq_true]
    intro c hc
    rw [decide_eq_true_eq]
    rintro rfl
    exact absurd (List.all_eq_true.mp parts _ (mem_trim hc (by decide))) (by decide)
  have whole : (s.toList ++ []).span (· ≠ '/') = (s.toList, []) :=
    span_append noSlash (stopsAt_nil _)
  rw [List.append_nil] at whole
  unfold read
  rw [whole]
  simp only [String.ofList_toList, h]

theorem mask_self (width : Nat) : mask width width = BitVec.allOnes width := by
  rw [mask]
  split
  · next zero =>
    subst zero
    rfl
  · rw [Nat.sub_self, BitVec.shiftLeft_zero]

/-- **The block of one address contains just this address.** -/
theorem contains_single (a b : Address) : (single a).contains b = decide (b = a) := by
  have bits {width : Nat} (x y : BitVec width) :
      (x &&& mask width width == y &&& mask width width) = decide (y = x) := by
    rw [mask_self, BitVec.and_allOnes, BitVec.and_allOnes, Bool.eq_iff_iff, beq_iff_eq,
      decide_eq_true_eq, eq_comm]
  cases a with
  | v4 x =>
    cases b with
    | v4 y => simpa [contains, single, Address.width] using bits x y
    | v6 y => simp [contains, single]
  | v6 x =>
    cases b with
    | v4 y => simp [contains, single]
    | v6 y => simpa [contains, single, Address.width] using bits x y

end Network

/-! ## Predicates -/

namespace Predicate

/-- The address of the other family is not equal to an address, and not different from it either,
while it lies outside of the block of the address. -/
theorem other_family_neither :
    let address : Address := .v4 167772161
    let other : Option Value := some (.string "::1")
    Address.read? "10.0.0.1" = some address ∧ (address? (other.getD .null)).isSome = true ∧
      (Predicate.network true (.single address)).holds other = true ∧
      (Predicate.address .notEqual address).holds other = false ∧
      (Predicate.address .equal address).holds other = false := by
  decide +kernel

variable {a b : Address} {candidate : Option Value}

/-- Addresses of one family are equal or different, and as equality says. -/
theorem any_compare?_of_family (family : b.isV4 = a.isV4) :
    (b.compare? a).any Relation.equal.holds = decide (b = a) ∧
      (b.compare? a).any Relation.notEqual.holds = !decide (b = a) := by
  have order {width : Nat} (x y : BitVec width) :
      (compare y.toNat x.toNat).isEq = decide (y = x) ∧
        (compare y.toNat x.toNat).isNe = !decide (y = x) := by
    by_cases same : y = x
    · simp [same]
    · rcases Nat.lt_or_gt_of_ne (fun h => same (BitVec.toNat_inj.mp h)) with less | more
      · simp [Nat.compare_eq_lt.mpr less, same]
      · simp [Nat.compare_eq_gt.mpr more, same]
  cases a with
  | v4 x =>
    cases b with
    | v4 y => simpa [Address.compare?, Relation.holds] using order x y
    | v6 y => cases family
  | v6 x =>
    cases b with
    | v4 y => cases family
    | v6 y => simpa [Address.compare?, Relation.holds] using order x y

theorem compare?_of_families (families : b.isV4 ≠ a.isV4) : b.compare? a = none ∧ b ≠ a := by
  refine ⟨?_, fun same => families (congrArg _ same)⟩
  cases a <;> cases b <;> first | rfl | exact absurd rfl families

theorem holds_address (known : address? (candidate.getD .null) = some b) (r : Relation) :
    (Predicate.address r a).holds candidate = (b.compare? a).any r.holds := by
  rw [holds, holdsOf, known, Option.bind_some]

theorem holds_network (known : address? (candidate.getD .null) = some b) (negated : Bool)
    (n : Network) : (Predicate.network negated n).holds candidate = (negated ^^ n.contains b) := by
  rw [holds, holdsOf, known, Option.any_some]

/-- What is no address satisfies no predicate about addresses. -/
theorem holds_of_no_address (unreadable : address? (candidate.getD .null) = none) (r : Relation)
    (negated : Bool) (n : Network) : (Predicate.address r a).holds candidate = false ∧
      (Predicate.network negated n).holds candidate = false := by
  simp only [holds, holdsOf, unreadable, Option.bind_none, Option.any_none, and_self]

/-- On an address exactly one of containment and its negation holds. -/
theorem holds_network_not (known : address? (candidate.getD .null) = some b) (n : Network) :
    (Predicate.network true n).holds candidate = !(Predicate.network false n).holds candidate := by
  rw [holds_network known, holds_network known, Bool.true_xor, Bool.false_xor]

/-- To be in the block of an address is to be equal to it. -/
theorem holds_single (a : Address) (candidate : Option Value) :
    (Predicate.network false (.single a)).holds candidate =
      (Predicate.address .equal a).holds candidate := by
  cases known : address? (candidate.getD .null) with
  | none =>
    obtain ⟨address, network⟩ := @holds_of_no_address a _ known .equal false (.single a)
    rw [address, network]
  | some b =>
    rw [holds_network known, holds_address known, Network.contains_single, Bool.false_xor]
    by_cases family : b.isV4 = a.isV4
    · exact (any_compare?_of_family family).1.symm
    · obtain ⟨unordered, other⟩ := compare?_of_families family
      rw [unordered, Option.any_none, decide_eq_false other]

/-- Inside a family not to be in the block is to be different, which is not to be equal. -/
theorem holds_of_family (known : address? (candidate.getD .null) = some b)
    (family : b.isV4 = a.isV4) :
    (Predicate.network true (.single a)).holds candidate =
        (Predicate.address .notEqual a).holds candidate ∧
      (Predicate.address .notEqual a).holds candidate =
        !(Predicate.address .equal a).holds candidate := by
  obtain ⟨same, differs⟩ := any_compare?_of_family family
  rw [holds_network_not known, holds_single, holds_address known, holds_address known, same,
    differs]
  exact ⟨rfl, rfl⟩

/-- An address of the other family is outside of the block, and compares in no way. -/
theorem holds_of_families (known : address? (candidate.getD .null) = some b)
    (families : b.isV4 ≠ a.isV4) :
    (Predicate.network true (.single a)).holds candidate = true ∧
      ∀ r, (Predicate.address r a).holds candidate = false := by
  have apart (r : Relation) : (Predicate.address r a).holds candidate = false := by
    rw [holds_address known, (compare?_of_families families).1, Option.any_none]
  refine ⟨?_, apart⟩
  rw [holds_network_not known, holds_single, apart, Bool.not_false]

/-- The operators of equality and of containment take the text of an address. -/
theorem build_of_address {s : String} (h : Address.read? (trim s) = some a) (r : Relation)
    (negated : Bool) : build (.address r) [.string s] = .ok (.address r a) ∧
      build (.network negated) [.string s] = .ok (.network negated (.single a)) := by
  constructor
  · simp only [build, Operator.addressOperand, Operator.stringOperand, h]
    rfl
  · simp only [build, Operator.networkOperand, Operator.stringOperand, Network.read_bare h]
    rfl

/-- **Containment in the block of one address is equality with it.**  Not to be in the block is to
be different from the address, in its family; an address of the other family is not in the block,
and neither equal to the address nor different from it.  In its own family exactly one of equality
and difference holds of an address, and of containment and its negation on any. -/
theorem single_network_iff_address {s : String} {a : Address}
    (h : Address.read? (trim s) = some a) :
    ∃ same differs inside outside : Predicate,
      build (.address .equal) [.string s] = .ok same ∧
      build (.address .notEqual) [.string s] = .ok differs ∧
      build (.network false) [.string s] = .ok inside ∧
      build (.network true) [.string s] = .ok outside ∧
      ∀ candidate : Option Value,
        inside.holds candidate = same.holds candidate ∧
        (address? (candidate.getD .null) = none → same.holds candidate = false ∧
          differs.holds candidate = false ∧ outside.holds candidate = false) ∧
        ∀ b, address? (candidate.getD .null) = some b →
          (b.isV4 = a.isV4 → outside.holds candidate = differs.holds candidate ∧
            differs.holds candidate = !same.holds candidate) ∧
          (b.isV4 ≠ a.isV4 → outside.holds candidate = true ∧ differs.holds candidate = false ∧
            same.holds candidate = false) ∧
          ∀ n, (Predicate.network true n).holds candidate =
            !(Predicate.network false n).holds candidate := by
  refine ⟨_, _, _, _, (build_of_address h .equal false).1, (build_of_address h .notEqual false).1,
    (build_of_address h .equal false).2, (build_of_address h .equal true).2, fun candidate => ?_⟩
  refine ⟨holds_single a candidate, fun unreadable => ?_, fun b known => ?_⟩
  · have nothing := @holds_of_no_address a candidate unreadable
    exact ⟨(nothing .equal true (.single a)).1, (nothing .notEqual true (.single a)).1,
      (nothing .equal true (.single a)).2⟩
  · refine ⟨holds_of_family known, fun families => ?_, holds_network_not known⟩
    obtain ⟨outside, apart⟩ := holds_of_families known families
    exact ⟨outside, apart .notEqual, apart .equal⟩

/-- Beside an address itself, one of its family and one of the other. -/
theorem single_network_of_ten : ∃ differs outside : Predicate,
    build (.address .notEqual) [.string "10.0.0.1"] = .ok differs ∧
    build (.network true) [.string "10.0.0.1"] = .ok outside ∧
    outside.holds (some (.string "10.0.0.2")) = differs.holds (some (.string "10.0.0.2")) ∧
    outside.holds (some (.string "::1")) = true ∧ differs.holds (some (.string "::1")) = false := by
  have read : Address.read? (trim "10.0.0.1") = some (.v4 167772161) := by decide +kernel
  have near : address? (.string "10.0.0.2") = some (.v4 167772162) := by decide +kernel
  have far : address? (.string "::1") = some (.v6 1) := by decide +kernel
  obtain ⟨same, differs, inside, outside, -, hd, -, ho, holds⟩ := single_network_iff_address read
  obtain ⟨-, -, family⟩ := holds (some (.string "10.0.0.2"))
  obtain ⟨-, -, families⟩ := holds (some (.string "::1"))
  obtain ⟨out, different, -⟩ := (families _ far).2.1 (by decide)
  exact ⟨differs, outside, hd, ho, ((family _ near).1 rfl).1, out, different⟩

end Predicate

end Compliance
