import Compliance.Address.Text
import Compliance.Proofs.Text.Plain
import Mathlib.Data.List.TakeWhile

/-!
# Addresses and networks are read back

The written form of an address is one of several that are read as it: octets for
the fourth version, and groups for the sixth, of which a run of zeros may be left
out and the last two may be octets.

## Main definitions

* `Address.groupsTail gs` — groups with a colon in front of each.
* `Address.readGroups_groupsTail` — written groups are read back.
* `Address.read?_text`, `Network.read_text` — so are addresses and networks.
-/

namespace Compliance

open Text

namespace Address

/-! ## Octets -/

private theorem octet_digits :
    ∀ n < 256, (natDigits n).length ≤ 3 ∧
      (1 < (natDigits n).length && (natDigits n).head? == some '0') = false := by
  decide +kernel

theorem readOctet_natDigits {n : Nat} (h : n < 256) {rest : List Char}
    (stops : StopsAt Char.isDigit rest) : readOctet (natDigits n ++ rest) = some (n, rest) := by
  obtain ⟨short, lead⟩ := octet_digits n h
  have three : decide (3 < (natDigits n).length) = false := decide_eq_false (by omega)
  have small : decide (255 < n) = false := decide_eq_false (by omega)
  simp only [readOctet, takeDigits_append (all_isDigit_natDigits n) stops, isEmpty_natDigits, three,
    lead, readNat_natDigits, small, Bool.or_false, Bool.false_eq_true, if_false]

/-- Four octets are read back up to where digits stop. -/
theorem readOctets_octetsText (bits : Nat) {rest : List Char} (stops : StopsAt Char.isDigit rest) :
    readOctets (octetsText bits ++ rest) = some (bits % 2 ^ 32, rest) := by
  have byte : ∀ n, n % 256 < 256 := by
    intro n
    exact Nat.mod_lt n (by decide)
  have point : ∀ cs, StopsAt Char.isDigit ('.' :: cs) := by
    intro cs
    exact stopsAt_cons rfl
  simp only [octetsText, List.append_assoc, List.cons_append, readOctets,
    readOctet_natDigits (byte _) (point _), readOctet_natDigits (byte _) stops, afterPoint,
    Option.bind_eq_bind, Option.bind_some, Option.pure_def, Option.some.injEq, Prod.mk.injEq,
    and_true, Nat.shiftRight_eq_div_pow]
  omega

theorem readOctets_eq_none_of_stops {cs : List Char} (stops : StopsAt Char.isDigit cs) :
    readOctets cs = none := by
  have noDigits : takeDigits cs = ([], cs) := @takeDigits_append [] cs rfl stops
  have octet : readOctet cs = none := by
    simp only [readOctet, noDigits, List.isEmpty_nil, Bool.true_or, if_true]
  rw [readOctets, octet]
  rfl

theorem readOctets_eq_none {cs : List Char} (h : '.' ∉ cs) : readOctets cs = none := by
  have first : ∀ a rest, readOctet cs = some (a, rest) → afterPoint rest = none := by
    intro a rest found
    have suffix : rest = cs.dropWhile Char.isDigit := by
      simp only [readOctet, takeDigits, List.span_eq_takeWhile_dropWhile] at found
      split at found
      · cases found
      · exact (Prod.mk.inj (Option.some.inj found)).2.symm
    simp only [afterPoint]
    split
    · refine absurd ((List.dropWhile_suffix Char.isDigit).subset ?_) h
      rw [← suffix]
      exact List.mem_cons_self
    · rfl
  rw [readOctets]
  cases found : readOctet cs with
  | none => rfl
  | some octet => simp [first octet.1 octet.2 found]

/-! ## Groups -/

private theorem hexDigit_digitChar :
    ∀ d < 16, isHex d.digitChar = true ∧ hexValue d.digitChar = d ∧ d.digitChar ≠ '.' := by
  decide +kernel

/-- A group is written in hexadecimal digits that denote it. -/
theorem toDigits_hex (n : Nat) : (Nat.toDigits 16 n).all isHex = true ∧
    '.' ∉ Nat.toDigits 16 n ∧
    (Nat.toDigits 16 n).foldl (fun n c => n * 16 + hexValue c) 0 = n := by
  induction n using Nat.strongRecOn with
  | ind n ih =>
    rw [Nat.toDigits_eq_if (by decide)]
    split
    · next small =>
      obtain ⟨hex, value, point⟩ := hexDigit_digitChar n small
      exact ⟨by simp [hex], by simp [point.symm], by simp [value]⟩
    · next large =>
      obtain ⟨hex, value, point⟩ := hexDigit_digitChar (n % 16) (Nat.mod_lt n (by decide))
      obtain ⟨front, points, front'⟩ := ih (n / 16) (by omega)
      refine ⟨?_, ?_, ?_⟩
      · rw [List.all_append, front]
        simp [hex]
      · rw [List.mem_append, not_or]
        exact ⟨points, by simp [point.symm]⟩
      · rw [List.foldl_append, front', List.foldl_cons, List.foldl_nil, value]
        omega

/-- A group is read back up to where hexadecimal digits stop. -/
theorem readGroup_toDigits {n : Nat} (h : n < 65536) {rest : List Char}
    (stops : StopsAt isHex rest) :
    readGroup (Nat.toDigits 16 n ++ rest) = some (n, rest) := by
  obtain ⟨hex, -, value⟩ := toDigits_hex n
  have nonempty : (Nat.toDigits 16 n).isEmpty = false :=
    List.isEmpty_eq_false_iff.mpr Nat.toDigits_ne_nil
  have short : (Nat.toDigits 16 n).length ≤ 4 :=
    (Nat.length_toDigits_le_iff (by decide) (by decide)).mpr h
  have four : decide (4 < (Nat.toDigits 16 n).length) = false := decide_eq_false (by omega)
  simp only [readGroup, span_append hex stops, nonempty, four, Bool.or_false, Bool.false_eq_true,
    if_false, value]

/-- No group starts where no hexadecimal digit stands. -/
theorem readGroup_eq_none {rest : List Char} (stops : StopsAt isHex rest) :
    readGroup rest = none := by
  have noDigits : rest.span isHex = ([], rest) := @span_append isHex [] rest rfl stops
  simp only [readGroup, noDigits, List.isEmpty_nil, Bool.true_or, if_true]

/-- Groups with a colon in front of each. -/
def groupsTail (gs : List Nat) : List Char := gs.flatMap fun g => ':' :: Nat.toDigits 16 g

theorem groupsText_cons (g : Nat) (gs : List Nat) :
    groupsText (g :: gs) = Nat.toDigits 16 g ++ groupsTail gs := by
  induction gs generalizing g with
  | nil => simp [groupsText, groupsTail, List.intercalate]
  | cons next more ih =>
    have step : groupsText (g :: next :: more) =
        Nat.toDigits 16 g ++ ':' :: groupsText (next :: more) := by
      simp [groupsText, List.intercalate]
    rw [step, ih, groupsTail, groupsTail, List.flatMap_cons, List.cons_append]

theorem point_not_mem_groupsTail (gs : List Nat) : '.' ∉ groupsTail gs := by
  rw [groupsTail, List.mem_flatMap]
  rintro ⟨g, -, hg⟩
  rw [List.mem_cons] at hg
  rcases hg with hg | hg
  · exact absurd hg (by decide)
  · exact (toDigits_hex g).2.1 hg

/-- Where groups end: at the end of the text, or in front of the sign for zeros. -/
def EndsGroups (rest : List Char) : Prop := rest = [] ∨ ∃ more, rest = ':' :: ':' :: more

theorem EndsGroups.stops {rest : List Char} (h : EndsGroups rest) : StopsAt isHex rest := by
  obtain rfl | ⟨more, rfl⟩ := h
  · exact stopsAt_nil isHex
  · exact stopsAt_cons rfl

theorem readGroups_ends (limit : Nat) (isFirst : Bool) {rest : List Char} (h : EndsGroups rest)
    (point : '.' ∉ rest) : readGroups limit isFirst rest = ⟨[], false, rest⟩ := by
  cases limit with
  | zero => rfl
  | succ limit =>
    have noPoint : ∀ body, '.' ∉ body → StopsAt isHex body →
        (if 0 < limit then readOctets body else none) = none ∧ readGroup body = none := by
      intro body hp stops
      refine ⟨?_, readGroup_eq_none stops⟩
      split
      · exact readOctets_eq_none hp
      · rfl
    cases isFirst with
    | true =>
      obtain ⟨octets, group⟩ := noPoint rest point h.stops
      simp only [readGroups, if_true, octets, group]
    | false =>
      obtain rfl | ⟨more, rfl⟩ := h
      · rfl
      · have behind : '.' ∉ ':' :: more := fun hp => point (List.mem_cons_of_mem _ hp)
        obtain ⟨octets, group⟩ := noPoint _ behind (stopsAt_cons rfl)
        simp only [readGroups, Bool.false_eq_true, if_false, octets, group]

/-- One group in front of others, where it does not start four octets. -/
private theorem readGroups_cons (limit : Nat) {g : Nat} (isFirst : Bool) (small : g < 65536)
    {rest : List Char} (stops : StopsAt isHex rest)
    (octets : readOctets (Nat.toDigits 16 g ++ rest) = none) :
    readGroups (limit + 1) isFirst
        ((if isFirst then [] else [':']) ++ (Nat.toDigits 16 g ++ rest)) =
      ⟨g :: (readGroups limit false rest).values, (readGroups limit false rest).embedded,
        (readGroups limit false rest).rest⟩ := by
  have noOctets : (if 0 < limit then readOctets (Nat.toDigits 16 g ++ rest) else none) = none := by
    rw [octets, ite_self]
  cases isFirst with
  | true =>
    simp only [if_true, List.nil_append, readGroups, noOctets, readGroup_toDigits small stops]
  | false =>
    simp only [Bool.false_eq_true, if_false, List.singleton_append, readGroups, noOctets,
      readGroup_toDigits small stops]

private theorem groupsTail_append (g : Nat) (gs : List Nat) {rest : List Char}
    (ends : EndsGroups rest) (point : '.' ∉ rest) :
    StopsAt isHex (groupsTail gs ++ rest) ∧
      readOctets (Nat.toDigits 16 g ++ (groupsTail gs ++ rest)) = none := by
  constructor
  · cases gs with
    | nil => exact ends.stops
    | cons g more => exact stopsAt_cons rfl
  · refine readOctets_eq_none ?_
    rw [List.mem_append, not_or, List.mem_append, not_or]
    exact ⟨(toDigits_hex g).2.1, point_not_mem_groupsTail gs, point⟩

/-- **Written groups are read back** up to where groups end. -/
theorem readGroups_groupsTail {gs : List Nat} (small : ∀ g ∈ gs, g < 65536) {limit : Nat}
    (enough : gs.length ≤ limit) {rest : List Char} (ends : EndsGroups rest) (point : '.' ∉ rest) :
    readGroups limit false (groupsTail gs ++ rest) = ⟨gs, false, rest⟩ := by
  induction gs generalizing limit with
  | nil => exact readGroups_ends limit false ends point
  | cons g more ih =>
    rw [List.length_cons] at enough
    rw [List.forall_mem_cons] at small
    obtain ⟨limit, rfl⟩ := Nat.exists_eq_add_of_le' (Nat.le_of_add_left_le enough)
    obtain ⟨stops, octets⟩ := groupsTail_append g more ends point
    have read := readGroups_cons limit false small.1 stops octets
    rw [ih small.2 (Nat.le_of_succ_le_succ enough)] at read
    rw [← read, groupsTail, List.flatMap_cons, ← groupsTail]
    simp only [List.cons_append, List.append_assoc, Bool.false_eq_true, if_false, List.nil_append]

/-- Groups are read back at the start of a text, where the first has no colon in front. -/
theorem readGroups_groupsText {gs : List Nat} (small : ∀ g ∈ gs, g < 65536) {limit : Nat}
    (enough : gs.length ≤ limit) {rest : List Char} (ends : EndsGroups rest) (point : '.' ∉ rest) :
    readGroups limit true (groupsText gs ++ rest) = ⟨gs, false, rest⟩ := by
  cases gs with
  | nil => exact readGroups_ends limit true ends point
  | cons g more =>
    rw [List.length_cons] at enough
    rw [List.forall_mem_cons] at small
    obtain ⟨limit, rfl⟩ := Nat.exists_eq_add_of_le' (Nat.le_of_add_left_le enough)
    obtain ⟨stops, octets⟩ := groupsTail_append g more ends point
    have read := readGroups_cons limit true small.1 stops octets
    rw [readGroups_groupsTail small.2 (Nat.le_of_succ_le_succ enough) ends point] at read
    rw [← read, groupsText_cons, List.append_assoc, if_pos rfl, List.nil_append]

/-! ## Words of 128 bits -/

theorem groups_small (bits : BitVec 128) : ∀ g ∈ groups bits, g < 65536 := by
  rw [groups, List.forall_mem_map]
  intro _ _
  exact Nat.mod_lt _ (by decide)

theorem ofGroups_groups (bits : BitVec 128) : ofGroups (groups bits) = .v6 bits := by
  have step : ∀ k, bits.toNat >>> (k + 16) * 65536 + bits.toNat >>> k % 65536 =
      bits.toNat >>> k := by
    intro k
    rw [Nat.shiftRight_add, Nat.shiftRight_eq_div_pow _ 16]
    omega
  have first : 0 * 65536 + bits.toNat >>> 112 % 65536 = bits.toNat >>> 112 := by
    have := bits.isLt
    rw [Nat.shiftRight_eq_div_pow]
    omega
  rw [ofGroups, groups]
  simp only [List.map_cons, List.map_nil, List.foldl_cons, List.foldl_nil]
  rw [first, step 96, step 80, step 64, step 48, step 32, step 16, step 0, Nat.shiftRight_zero,
    BitVec.ofNat_toNat, BitVec.setWidth_eq]

/-- Where there are enough zero groups in a row, the groups around them are cut out. -/
theorem splitAtZeros_append {gs : List Nat} {count : Nat} (positive : 0 < count)
    (h : count ≤ longestZeros gs) :
    (splitAtZeros count gs).1 ++ List.replicate count 0 ++ (splitAtZeros count gs).2 = gs := by
  induction gs with
  | nil => exact absurd h (by simpa [longestZeros] using Nat.ne_of_gt positive)
  | cons g more ih =>
    rw [splitAtZeros]
    split
    · next here =>
      have run : (g :: more).take count = List.replicate count 0 := by
        have start := List.takeWhile_append_dropWhile (p := (· = 0)) (l := g :: more)
        rw [← start, List.take_append_of_le_length here, List.eq_replicate_iff]
        refine ⟨List.length_take_of_le here, fun n hn => ?_⟩
        simpa using List.mem_takeWhile_imp (List.mem_of_mem_take hn)
      rw [List.nil_append, ← run]
      exact List.take_append_drop count (g :: more)
    · next later =>
      have rest := ih (by rw [longestZeros] at h; omega)
      simp only [List.cons_append, rest]

theorem length_groups (bits : BitVec 128) : (groups bits).length = 8 := rfl

private theorem readGroups_octets (limit bits : Nat) :
    readGroups (limit + 2) false (':' :: octetsText bits) =
      ⟨[bits % 2 ^ 32 / 65536, bits % 2 ^ 32 % 65536], true, []⟩ := by
  have octets : readOctets (octetsText bits ++ []) = some (bits % 2 ^ 32, []) :=
    readOctets_octetsText bits (stopsAt_nil _)
  rw [List.append_nil] at octets
  simp only [readGroups, Bool.false_eq_true, if_false, Nat.zero_lt_succ, if_true, octets]

/-- A word that maps an address of version 4 is written with octets. -/
private theorem readV6_mapped {bits : BitVec 128}
    (mapped : (groups bits).take 6 = [0, 0, 0, 0, 0, 65535]) :
    readV6 ("::ffff:".toList ++ octetsText (bits.toNat % (1 <<< 32))) = some (.v6 bits) := by
  have written : "::ffff:".toList ++ octetsText (bits.toNat % (1 <<< 32)) =
      ':' :: ':' :: (Nat.toDigits 16 65535 ++ ':' :: octetsText (bits.toNat % (1 <<< 32))) := rfl
  generalize hn : bits.toNat % (1 <<< 32) = n at written ⊢
  have front : ∀ cs, readGroups 8 true (':' :: cs) = ⟨[], false, ':' :: cs⟩ := by
    intro cs
    have octets : readOctets (':' :: cs) = none := readOctets_eq_none_of_stops (stopsAt_cons rfl)
    have group : readGroup (':' :: cs) = none := readGroup_eq_none (stopsAt_cons rfl)
    simp only [readGroups, if_true, Nat.reduceLT, octets, group]
  have back : readGroups 7 true (Nat.toDigits 16 65535 ++ ':' :: octetsText n) =
      ⟨[65535, n % 2 ^ 32 / 65536, n % 2 ^ 32 % 65536], true, []⟩ := by
    have octets : readOctets (Nat.toDigits 16 65535 ++ ':' :: octetsText n) = none :=
      readOctets_eq_none_of_stops (stopsAt_cons rfl)
    have read := readGroups_cons 6 true (show 65535 < 65536 by decide) (stopsAt_cons rfl) octets
    rw [readGroups_octets 4 n] at read
    exact read
  have same : List.replicate 5 0 ++ [65535, n % 2 ^ 32 / 65536, n % 2 ^ 32 % 65536] =
      groups bits := by
    have whole := List.take_append_drop 6 (groups bits)
    have last : (groups bits).drop 6 = [bits.toNat >>> 16 % 65536, bits.toNat >>> 0 % 65536] := rfl
    rw [← whole, mapped, last, ← hn, Nat.shiftRight_eq_div_pow, Nat.shiftRight_zero]
    have parts : bits.toNat % (1 <<< 32) % 2 ^ 32 / 65536 = bits.toNat / 2 ^ 16 % 65536 ∧
        bits.toNat % (1 <<< 32) % 2 ^ 32 % 65536 = bits.toNat % 65536 := by
      rw [show 1 <<< 32 = 2 ^ 32 from rfl]
      omega
    rw [parts.1, parts.2]
    rfl
  rw [written]
  simp only [readV6, front, back, List.length_nil, List.length_cons, Nat.reduceAdd, Nat.reduceSub,
    reduceCtorEq, if_false, Bool.false_eq_true, if_true, List.nil_append, same, ofGroups_groups]

/-- A word without a run of zero groups is written with all eight. -/
private theorem readV6_plain (bits : BitVec 128) :
    readV6 (groupsText (groups bits)) = some (.v6 bits) := by
  have front : readGroups 8 true (groupsText (groups bits) ++ []) = ⟨groups bits, false, []⟩ :=
    readGroups_groupsText (groups_small bits) (Nat.le_refl 8) (Or.inl rfl) List.not_mem_nil
  rw [List.append_nil] at front
  simp only [readV6, front, length_groups, if_true, ofGroups_groups]

/-- A run of zero groups is written as a pair of colons. -/
private theorem readV6_shortened {bits : BitVec 128} {front back : List Nat} {count : Nat}
    (two : 2 ≤ count) (whole : front ++ List.replicate count 0 ++ back = groups bits) :
    readV6 (groupsText front ++ "::".toList ++ groupsText back) = some (.v6 bits) := by
  have small := groups_small bits
  rw [← whole, List.forall_mem_append, List.forall_mem_append] at small
  have total := length_groups bits
  rw [← whole, List.length_append, List.length_append, List.length_replicate] at total
  have point : '.' ∉ ':' :: ':' :: groupsText back := by
    cases back with
    | nil => decide
    | cons g more =>
      rw [groupsText_cons, ← List.cons_append, ← List.cons_append, List.mem_append, not_or]
      refine ⟨?_, point_not_mem_groupsTail more⟩
      simpa using (toDigits_hex g).2.1
  have first : readGroups 8 true (groupsText front ++ ':' :: ':' :: groupsText back) =
      ⟨front, false, ':' :: ':' :: groupsText back⟩ :=
    readGroups_groupsText small.1.1 (by omega) (Or.inr ⟨_, rfl⟩) point
  have second : readGroups (7 - front.length) true (groupsText back ++ []) = ⟨back, false, []⟩ :=
    readGroups_groupsText small.2 (by omega) (Or.inl rfl) List.not_mem_nil
  rw [List.append_nil] at second
  have zeros : 8 - front.length - back.length = count := by omega
  have few : front.length ≠ 8 := by omega
  have written : groupsText front ++ "::".toList ++ groupsText back =
      groupsText front ++ ':' :: ':' :: groupsText back := by
    rw [List.append_assoc]
    rfl
  simp only [written, readV6, first, if_neg few, Bool.false_eq_true, if_false, second, zeros, whole,
    ofGroups_groups, if_true]

theorem readV6_v6Text (bits : BitVec 128) : readV6 (v6Text bits) = some (.v6 bits) := by
  simp only [v6Text]
  split
  · next mapped => exact readV6_mapped mapped
  · split
    · exact readV6_plain bits
    · next many =>
      have two : 2 ≤ longestZeros (groups bits) := Nat.le_of_not_lt many
      exact readV6_shortened two (splitAtZeros_append (by omega) (Nat.le_refl _))

/-! ## Addresses -/

private theorem isPlain_of_isHex {c : Char} (h : isHex c = true) : isPlain c = true := by
  simp only [isHex, Bool.or_eq_true, Bool.and_eq_true, decide_eq_true_eq] at h
  rcases h with (h | ⟨low, high⟩) | ⟨low, high⟩
  · exact isPlain_of_isDigit h
  · have low' : 97 ≤ c.toNat := low
    have high' : c.toNat ≤ 102 := high
    simp only [isPlain, Bool.and_eq_true, decide_eq_true_eq]
    omega
  · have low' : 65 ≤ c.toNat := low
    have high' : c.toNat ≤ 70 := high
    simp only [isPlain, Bool.and_eq_true, decide_eq_true_eq]
    omega

private theorem all_isPlain_toDigits (n : Nat) : (Nat.toDigits 16 n).all isPlain = true := by
  rw [List.all_eq_true]
  intro c hc
  exact isPlain_of_isHex (List.all_eq_true.mp (toDigits_hex n).1 c hc)

private theorem all_isPlain_octetsText (bits : Nat) : (octetsText bits).all isPlain = true := by
  have digits : ∀ n, (natDigits n).all isPlain = true := fun n =>
    isPlain_all_of_isDigit (all_isDigit_natDigits n)
  have point : isPlain '.' = true := by decide
  simp only [octetsText, List.all_append, List.all_cons, digits, point, Bool.and_self]

private theorem all_isPlain_groupsText (gs : List Nat) : (groupsText gs).all isPlain = true := by
  have tail : (groupsTail gs).all isPlain = true := by
    rw [groupsTail, List.all_flatMap, List.all_eq_true]
    intro g _
    rw [List.all_cons, all_isPlain_toDigits, Bool.and_true]
    decide
  cases gs with
  | nil => rfl
  | cons g more =>
    rw [groupsTail, List.flatMap_cons, List.all_append, Bool.and_eq_true] at tail
    rw [groupsText_cons, List.all_append, all_isPlain_toDigits, Bool.true_and]
    exact tail.2

private theorem point_not_mem_groupsText (gs : List Nat) : '.' ∉ groupsText gs := by
  cases gs with
  | nil => exact List.not_mem_nil
  | cons g more =>
    rw [groupsText_cons, List.mem_append, not_or]
    exact ⟨(toDigits_hex g).2.1, point_not_mem_groupsTail more⟩

theorem text_plain (a : Address) : a.text.toList.all isPlain = true := by
  cases a with
  | v4 bits =>
    rw [text, String.toList_ofList]
    exact all_isPlain_octetsText bits.toNat
  | v6 bits =>
    have signs : "::ffff:".toList.all isPlain = true ∧ "::".toList.all isPlain = true := by decide
    simp only [text, String.toList_ofList, v6Text]
    split
    · rw [List.all_append, signs.1, all_isPlain_octetsText, Bool.and_self]
    · split
      · exact all_isPlain_groupsText _
      · simp only [List.all_append, signs.2, all_isPlain_groupsText, Bool.and_self]

/-- A word of 128 bits is not written as four octets. -/
private theorem readV4_v6Text (bits : BitVec 128) : readV4 (v6Text bits) = none := by
  have octets : readOctets (v6Text bits) = none := by
    simp only [v6Text]
    split
    · exact readOctets_eq_none_of_stops (stopsAt_cons rfl)
    · split
      · exact readOctets_eq_none (point_not_mem_groupsText _)
      · refine readOctets_eq_none ?_
        simp only [List.mem_append, not_or]
        exact ⟨⟨point_not_mem_groupsText _, by decide⟩, point_not_mem_groupsText _⟩
  simp only [readV4, octets]

/-- **An address is read back from its text.** -/
theorem read?_text (a : Address) : read? a.text = some a := by
  cases a with
  | v4 bits =>
    have octets : readOctets (octetsText bits.toNat ++ []) = some (bits.toNat % 2 ^ 32, []) :=
      readOctets_octetsText bits.toNat (stopsAt_nil _)
    rw [List.append_nil] at octets
    have word : BitVec.ofNat 32 (bits.toNat % 2 ^ 32) = bits := by
      rw [Nat.mod_eq_of_lt bits.isLt, BitVec.ofNat_toNat, BitVec.setWidth_eq]
    simp only [read?, text, String.toList_ofList, readV4, octets, word]
    rfl
  | v6 bits =>
    simp only [read?, text, String.toList_ofList, readV4_v6Text, readV6_v6Text]
    rfl

theorem trim_text (a : Address) : trim a.text = a.text := by
  have plain := trim_of_plain (text_plain a)
  rwa [String.ofList_toList] at plain

theorem quote_text (a : Address) : quote a.text = "\"" ++ a.text ++ "\"" := by
  have plain := quote_of_plain (text_plain a)
  rwa [String.ofList_toList] at plain

end Address

/-! ## Networks -/

namespace Network

private theorem toList_text (n : Network) :
    n.text.toList = n.address.text.toList ++ '/' :: natDigits n.length := by
  simp [text, natText]

private theorem all_isPlain_length (n : Network) : (natDigits n.length).all isPlain = true :=
  isPlain_all_of_isDigit (all_isDigit_natDigits n.length)

private theorem readUpTo?_length (n : Network) :
    readUpTo? maxReadLength (natDigits n.length) = some n.length := by
  have short : n.length ≤ 128 := by
    refine Nat.le_trans n.length_le ?_
    cases n.address <;> simp [Address.width]
  have small : decide (maxReadLength < n.length) = false :=
    decide_eq_false (Nat.not_lt.mpr (Nat.le_trans short (by decide)))
  have digits := all_isDigit_natDigits n.length
  simp only [readUpTo?]
  split
  · next plus =>
    rw [plus, List.all_cons, Bool.and_eq_true] at digits
    exact absurd digits.1 (by decide)
  · simp only [isEmpty_natDigits, digits, readNat_natDigits, small, Bool.not_true, Bool.or_self,
      Bool.false_eq_true, if_false]

/-- **A network is read back from its text.** -/
theorem read_text (n : Network) : read n.text = .ok n := by
  have before : n.address.text.toList.all (· ≠ '/') = true := by
    have plain := Address.text_plain n.address
    rw [List.all_eq_true] at plain ⊢
    intro c hc
    have visible := plain c hc
    rw [decide_eq_true_eq]
    rintro rfl
    exact absurd visible (by decide)
  have cut : n.text.toList.span (· ≠ '/') = (n.address.text.toList, '/' :: natDigits n.length) := by
    rw [toList_text]
    exact span_append before (stopsAt_cons rfl)
  have whole : of? n.address n.length = some n := dif_pos n.length_le
  unfold read
  rw [cut]
  simp only [String.ofList_toList, Address.trim_text, Address.read?_text,
    trim_of_plain (all_isPlain_length n), String.toList_ofList, readUpTo?_length, make, whole]

theorem quote_text (n : Network) : quote n.text = "\"" ++ n.text ++ "\"" := by
  have slash : escapeAll ['/'] = ['/'] := rfl
  have escaped : escapeAll n.text.toList = n.text.toList := by
    rw [toList_text, ← List.singleton_append, escapeAll_append, escapeAll_append, slash,
      escapeAll_of_plain (Address.text_plain n.address),
      escapeAll_of_plain (all_isPlain_length n)]
  rw [quote, escaped]
  apply String.toList_injective
  simp

end Network

end Compliance
