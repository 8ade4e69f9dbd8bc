import Compliance.Predicate.Operator

/-!
# What operators make of operands

For each operator the operands that it takes, and the predicate that it makes of
them.  The predicate carries the operands in the order in which they were given,
the texts of addresses, networks and dates as what they denote.

## Main definitions

* `Predicate.Built op operands p` — the operator makes the predicate of the operands.
* `Predicate.build_eq_ok_iff` — this is what `Predicate.build` computes.
-/

namespace Compliance.Predicate

open Text

/-- What an operator makes of operands that fit it. -/
inductive Built : Operator → List Value → Predicate → Prop
  | null (negated : Bool) : Built (.null negated) [] (.null negated)
  | equals (negated : Bool) (v : Value) : Built (.equals negated) [v] (.equals negated v)
  | member (negated : Bool) (vs : List Value) : Built (.member negated) vs (.member negated vs)
  | number (bound : Bound) (n : Number) : Built (.number bound) [.number n] (.number bound n)
  | numberBetween (low high : Number) :
    Built .between [.number low, .number high] (.numberBetween low high)
  | dateBetween (low high : Moment) :
    Built .between [.date low, .date high] (.dateBetween low high)
  | empty (negated : Bool) : Built (.empty negated) [] (.empty negated)
  | string (negated : Bool) (place : Occurrence) (part : String) :
    Built (.string negated place) [.string part] (.string negated place part)
  | switch (on : Bool) : Built (.switch on) [] (.equals false (.boolean on))
  | address (relation : Relation) {s : String} {a : Address}
    (read : Address.read? (trim s) = some a) :
    Built (.address relation) [.string s] (.address relation a)
  | network (negated : Bool) {s : String} {n : Network} (read : Network.read s = .ok n) :
    Built (.network negated) [.string s] (.network negated n)
  | family (f : Family) : Built (.family f) [] (.family f)
  | date (negated : Bool) (side : Side) (m : Moment) :
    Built (.date negated side) [.date m] (.date negated side m)
  | dateText (negated : Bool) (side : Side) {s : String} {m : Moment}
    (read : Moment.read? s = some m) :
    Built (.date negated side) [.string s] (.date negated side m)

variable {op : Operator} {operands : List Value} {p : Predicate} {v : Value}

theorem dateOperand_of_read {s : String} {m : Moment} (read : Moment.read? s = some m) :
    op.dateOperand (.string s) = .ok m := by
  unfold Operator.dateOperand
  simp only [read]

theorem Built.build_eq_ok (h : Built op operands p) : build op operands = .ok p := by
  cases h with
  | address _ read =>
    simp only [build, Operator.addressOperand, Operator.stringOperand, read]
    rfl
  | network _ read =>
    simp only [build, Operator.networkOperand, Operator.stringOperand, read]
    rfl
  | dateText _ _ read =>
    rw [build, dateOperand_of_read read]
    rfl
  | _ => rfl

/-- A predicate of one operand is made if the operand is read. -/
private theorem map_eq_ok {α : Type} {read : Except OperandFault α} {f : α → Predicate}
    (h : read.map f = .ok p) : ∃ a, read = .ok a ∧ f a = p := by
  cases read with
  | error fault => cases h
  | ok a => exact ⟨a, rfl, Except.ok.inj h⟩

theorem numberOperand_eq_ok {n : Number} (h : op.numberOperand v = .ok n) : v = .number n := by
  cases v with
  | number => exact congrArg Value.number (Except.ok.inj h)
  | _ => cases h

theorem stringOperand_eq_ok {s : String} (h : op.stringOperand v = .ok s) : v = .string s := by
  cases v with
  | string => exact congrArg Value.string (Except.ok.inj h)
  | _ => cases h

theorem addressOperand_eq_ok {a : Address} (h : op.addressOperand v = .ok a) :
    ∃ s, v = .string s ∧ Address.read? (trim s) = some a := by
  unfold Operator.addressOperand at h
  split at h
  · cases h
  · next s content =>
    split at h
    · next read =>
      cases h
      exact ⟨s, stringOperand_eq_ok content, read⟩
    · cases h

theorem networkOperand_eq_ok {n : Network} (h : op.networkOperand v = .ok n) :
    ∃ s, v = .string s ∧ Network.read s = .ok n := by
  unfold Operator.networkOperand at h
  split at h
  · cases h
  · next s content =>
    split at h
    · next read =>
      cases h
      exact ⟨s, stringOperand_eq_ok content, read⟩
    · cases h

theorem dateOperand_eq_ok {m : Moment} (h : op.dateOperand v = .ok m) :
    v = .date m ∨ ∃ s, v = .string s ∧ Moment.read? s = some m := by
  cases v with
  | date => exact .inl (congrArg Value.date (Except.ok.inj h))
  | string s =>
    refine .inr ⟨s, rfl, ?_⟩
    unfold Operator.dateOperand at h
    simp only at h
    split at h
    · next read => exact read.trans (congrArg some (Except.ok.inj h))
    · cases h
  | _ => cases h

theorem between_eq_ok {low high : Value} (h : between low high = .ok p) :
    Built .between [low, high] p := by
  unfold between at h
  split at h
  · cases h
  · cases h
  · exact Except.ok.inj h ▸ .numberBetween _ _
  · exact Except.ok.inj h ▸ .dateBetween _ _
  · cases h

theorem built_of_build (h : build op operands = .ok p) : Built op operands p := by
  unfold build at h
  split at h
  · exact Except.ok.inj h ▸ .null _
  · exact Except.ok.inj h ▸ .equals _ _
  · exact Except.ok.inj h ▸ .member _ _
  · obtain ⟨n, read, rfl⟩ := map_eq_ok h
    exact numberOperand_eq_ok read ▸ .number _ n
  · exact between_eq_ok h
  · exact Except.ok.inj h ▸ .empty _
  · obtain ⟨s, read, rfl⟩ := map_eq_ok h
    exact stringOperand_eq_ok read ▸ .string _ _ s
  · exact Except.ok.inj h ▸ .switch _
  · obtain ⟨a, read, rfl⟩ := map_eq_ok h
    obtain ⟨s, rfl, denotes⟩ := addressOperand_eq_ok read
    exact .address _ denotes
  · obtain ⟨n, read, rfl⟩ := map_eq_ok h
    obtain ⟨s, rfl, denotes⟩ := networkOperand_eq_ok read
    exact .network _ denotes
  · exact Except.ok.inj h ▸ .family _
  · obtain ⟨m, read, rfl⟩ := map_eq_ok h
    rcases dateOperand_eq_ok read with rfl | ⟨s, rfl, denotes⟩
    · exact .date _ _ m
    · exact .dateText _ _ denotes
  · cases h

/-- **What operators make of operands**, and nothing else is made. -/
theorem build_eq_ok_iff : build op operands = .ok p ↔ Built op operands p :=
  ⟨built_of_build, Built.build_eq_ok⟩

end Compliance.Predicate
