import Compliance.Predicate.Parser
import Compliance.Proofs.Predicate.Built
import Compliance.Proofs.Token.Taking
import Mathlib.Data.List.Forall2

/-!
# Operators and the operands they need

An operator is refused for the number of its operands before anything else is looked
at, and for nothing but the number and the kinds.  Operands of the right number and of
the right kinds make a predicate, and it carries them in their order.  Where operators
are read with operands, their number is always right.

## Main definitions

* `OperandKind.Admits`, `Operator.Fits` — the operands that an operator is for.
* `Predicate.carried`, `Operand.Of` — what a predicate carries, and of what it was made.
* `Predicate.buildFrom standIn` — the count first, then the kinds, with a stand-in where
  operands are missing.
* `Predicate.build_eq_count_iff`, `Predicate.exists_build_iff` — when operands are refused.
* `Parser.Supplies` — a parser that reads operators with operands of the right number.
* `Parser.supplies_operation`, `Parser.predicate_run` — operators are read so, and what
  predicates make of them.
-/

namespace Compliance

open Text

/-! ## Kinds of operands -/

/-- What the operands of an operator have to be. -/
inductive OperandKind where
  | any
  | number
  | string
  | address
  | network
  | date
deriving DecidableEq, Repr

/-- Whether a value is of a kind.  Addresses, networks and dates may be given by their texts. -/
def OperandKind.Admits : OperandKind → Value → Prop
  | .any, _ => True
  | .number, v => v.kind = .number
  | .string, v => v.kind = .string
  | .address, v => ∃ s a, v = .string s ∧ Address.read? (trim s) = some a
  | .network, v => ∃ s n, v = .string s ∧ Network.read s = .ok n
  | .date, v => v.kind = .date ∨ ∃ s m, v = .string s ∧ Moment.read? s = some m

namespace Operator

/-- The kind of the operands of an operator. -/
def operandKind : Operator → OperandKind
  | .number _ => .number
  | .string _ _ => .string
  | .address _ => .address
  | .network _ => .network
  | .date _ _ => .date
  | _ => .any

/-- Whether operands have the kinds that an operator is for.  The bounds of a range are of one kind,
and null is of neither. -/
def Fits (op : Operator) (operands : List Value) : Prop :=
  match op with
  | .between => (∀ v ∈ operands, v.kind = .number) ∨ ∀ v ∈ operands, v.kind = .date
  | op => ∀ v ∈ operands, op.operandKind.Admits v

end Operator

/-! ## What predicates carry -/

/-- An operand as a predicate carries it. -/
inductive Operand where
  | value (v : Value)
  | address (a : Address)
  | network (n : Network)

/-- An operand is carried as it was written, or as what its text denotes. -/
inductive Operand.Of : Value → Operand → Prop
  | value (v : Value) : Of v (.value v)
  | address {s : String} {a : Address} (read : Address.read? (trim s) = some a) :
    Of (.string s) (.address a)
  | network {s : String} {n : Network} (read : Network.read s = .ok n) :
    Of (.string s) (.network n)
  | date {s : String} {m : Moment} (read : Moment.read? s = some m) :
    Of (.string s) (.value (.date m))

/-- The operand that the word of an operator stands for by itself. -/
def Operator.implied : Operator → List Operand
  | .switch on => [.value (.boolean on)]
  | _ => []

namespace Predicate

/-- What a predicate carries, in order. -/
def carried : Predicate → List Operand
  | .null _ | .empty _ | .family _ => []
  | .equals _ v => [.value v]
  | .member _ vs => vs.map .value
  | .number _ n => [.value (.number n)]
  | .numberBetween low high => [.value (.number low), .value (.number high)]
  | .string _ _ part => [.value (.string part)]
  | .address _ a => [.address a]
  | .network _ n => [.network n]
  | .date _ _ m => [.value (.date m)]
  | .dateBetween low high => [.value (.date low), .value (.date high)]

variable {op : Operator} {vs : List Value} {p : Predicate}

/-- **A predicate carries the operands in order**, and what its word stands for. -/
theorem Built.carried (h : Built op vs p) :
    ∃ written, p.carried = written ++ op.implied ∧ List.Forall₂ Operand.Of vs written := by
  cases h with
  | null | empty | family => exact ⟨[], rfl, .nil⟩
  | switch on => exact ⟨[], rfl, .nil⟩
  | member _ vs =>
    refine ⟨vs.map .value, (List.append_nil _).symm, ?_⟩
    rw [List.forall₂_map_right_iff]
    exact List.forall₂_same.mpr fun v _ => .value v
  | numberBetween low high => exact ⟨_, rfl, .cons (.value _) (.cons (.value _) .nil)⟩
  | dateBetween low high => exact ⟨_, rfl, .cons (.value _) (.cons (.value _) .nil)⟩
  | address _ read => exact ⟨_, rfl, .cons (.address read) .nil⟩
  | network _ read => exact ⟨_, rfl, .cons (.network read) .nil⟩
  | dateText _ _ read => exact ⟨_, rfl, .cons (.date read) .nil⟩
  | equals | number | string | date => exact ⟨_, rfl, .cons (.value _) .nil⟩

/-! ## The count before the kinds -/

/-- What an operator makes of operands that have been counted.  Where one is missing there is
something in its place. -/
def construct (standIn : Value) (op : Operator) (vs : List Value) :
    Except OperandFault Predicate :=
  let first := vs.headD standIn
  let second := vs.tail.headD standIn
  match op with
  | .null negated => .ok (.null negated)
  | .equals negated => .ok (.equals negated first)
  | .member negated => .ok (.member negated vs)
  | .number bound => (op.numberOperand first).map (.number bound)
  | .between => between first second
  | .empty negated => .ok (.empty negated)
  | .string negated place => (op.stringOperand first).map (.string negated place)
  | .switch on => .ok (.equals false (.boolean on))
  | .address relation => (op.addressOperand first).map (.address relation)
  | .network negated => (op.networkOperand first).map (.network negated)
  | .family f => .ok (.family f)
  | .date negated side => (op.dateOperand first).map (.date negated side)

/-- Operands are counted before the operator looks at them. -/
def buildFrom (standIn : Value) (op : Operator) (vs : List Value) :
    Except OperandFault Predicate :=
  if op.arity.accepts vs.length then construct standIn op vs else .error (.count op vs.length)

/-- **Nothing ever stands in for an operand.** -/
theorem buildFrom_eq (standIn : Value) (op : Operator) (vs : List Value) :
    buildFrom standIn op vs = build op vs := by
  cases op with
  | member negated => rfl
  | null | empty | switch | family => cases vs <;> rfl
  | between => rcases vs with _ | ⟨low, _ | ⟨high, _ | ⟨v, more⟩⟩⟩ <;> rfl
  | _ => rcases vs with _ | ⟨v, _ | ⟨w, more⟩⟩ <;> rfl

/-! ## Faults -/

variable {op' : Operator} {n : Nat} {v : Value} {standIn : Value}

/-- A fault that is not about the number of operands. -/
def OfKinds {α : Type} (x : Except OperandFault α) : Prop :=
  ∀ op n, x ≠ .error (.count op n)

theorem OfKinds.map {α β : Type} {x : Except OperandFault α} (h : OfKinds x) (f : α → β) :
    OfKinds (x.map f) := by
  intro op n found
  cases x with
  | error fault => exact h op n (congrArg Except.error (Except.error.inj found))
  | ok a => cases found

theorem ofKinds_numberOperand : OfKinds (op.numberOperand v) := by
  cases v <;> exact nofun

theorem ofKinds_stringOperand : OfKinds (op.stringOperand v) := by
  cases v <;> exact nofun

theorem ofKinds_addressOperand : OfKinds (op.addressOperand v) := by
  intro op' n
  unfold Operator.addressOperand
  split
  · next fault found =>
    intro same
    exact ofKinds_stringOperand op' n (found.trans (congrArg Except.error (Except.error.inj same)))
  · split <;> exact nofun

theorem ofKinds_networkOperand : OfKinds (op.networkOperand v) := by
  intro op' n
  unfold Operator.networkOperand
  split
  · next fault found =>
    intro same
    exact ofKinds_stringOperand op' n (found.trans (congrArg Except.error (Except.error.inj same)))
  · split <;> exact nofun

theorem ofKinds_dateOperand : OfKinds (op.dateOperand v) := by
  intro op' n
  unfold Operator.dateOperand
  split
  · exact nofun
  · split <;> exact nofun
  · exact nofun

theorem ofKinds_between {low high : Value} : OfKinds (between low high) := by
  intro op n
  unfold between
  split <;> exact nofun

theorem ofKinds_construct : OfKinds (construct standIn op vs) := by
  cases op with
  | number => exact ofKinds_numberOperand.map _
  | string => exact ofKinds_stringOperand.map _
  | address => exact ofKinds_addressOperand.map _
  | network => exact ofKinds_networkOperand.map _
  | date => exact ofKinds_dateOperand.map _
  | between => exact ofKinds_between
  | _ => exact nofun

/-- **Operands are refused for their number exactly if it is wrong**, whatever their kinds are. -/
theorem build_eq_count_iff : build op vs = .error (.count op' n) ↔
    op' = op ∧ n = vs.length ∧ op.arity.accepts vs.length = false := by
  rw [← buildFrom_eq .null, buildFrom]
  cases right : op.arity.accepts vs.length with
  | true =>
    rw [if_pos rfl]
    constructor
    · exact fun found => absurd found (ofKinds_construct op' n)
    · rintro ⟨-, -, wrong⟩
      cases wrong
  | false =>
    rw [if_neg Bool.false_ne_true]
    constructor
    · intro found
      cases found
      exact ⟨rfl, rfl, rfl⟩
    · rintro ⟨rfl, rfl, -⟩
      rfl

/-- A bound that is missing counts, and what the other one is does not. -/
example : build .between [.null] = .error (.count .between 1) := rfl

/-! ## Operands of the right number -/

theorem exists_number_of_kind (h : v.kind = .number) : ∃ n, v = .number n := by
  cases v with
  | number n => exact ⟨n, rfl⟩
  | _ => cases h

theorem exists_date_of_kind (h : v.kind = .date) : ∃ m, v = .date m := by
  cases v with
  | date m => exact ⟨m, rfl⟩
  | _ => cases h

theorem exists_string_of_kind (h : v.kind = .string) : ∃ s, v = .string s := by
  cases v with
  | string s => exact ⟨s, rfl⟩
  | _ => cases h

/-- Operands that make a predicate fit. -/
theorem Built.fits (h : Built op vs p) : op.Fits vs := by
  cases h with
  | numberBetween => exact .inl (by simp [Value.kind])
  | dateBetween => exact .inr (by simp [Value.kind])
  | address _ read =>
    simpa [Operator.Fits, Operator.operandKind, OperandKind.Admits] using ⟨_, read⟩
  | network _ read =>
    simpa [Operator.Fits, Operator.operandKind, OperandKind.Admits] using ⟨_, read⟩
  | dateText _ _ read =>
    simpa [Operator.Fits, Operator.operandKind, OperandKind.Admits, Value.kind] using ⟨_, read⟩
  | _ => simp [Operator.Fits, Operator.operandKind, OperandKind.Admits, Value.kind]

/-- Operands of the right number that fit make a predicate. -/
theorem exists_built (right : op.arity.accepts vs.length = true) (fits : op.Fits vs) :
    ∃ p, Built op vs p := by
  have noOperands (h : Arity.none.accepts vs.length = true) : vs = [] :=
    List.eq_nil_of_length_eq_zero (eq_of_beq h)
  have one (h : Arity.one.accepts vs.length = true) : ∃ v, vs = [v] :=
    List.length_eq_one_iff.mp (eq_of_beq h)
  have two (h : Arity.two.accepts vs.length = true) : ∃ low high, vs = [low, high] :=
    List.length_eq_two.mp (eq_of_beq h)
  cases op with
  | null negated => exact noOperands right ▸ ⟨_, .null negated⟩
  | empty negated => exact noOperands right ▸ ⟨_, .empty negated⟩
  | switch on => exact noOperands right ▸ ⟨_, .switch on⟩
  | family f => exact noOperands right ▸ ⟨_, .family f⟩
  | member negated => exact ⟨_, .member negated vs⟩
  | between =>
    obtain ⟨low, high, rfl⟩ := two right
    rcases fits with numbers | dates
    · obtain ⟨n, rfl⟩ := exists_number_of_kind (numbers low (by simp))
      obtain ⟨n', rfl⟩ := exists_number_of_kind (numbers high (by simp))
      exact ⟨_, .numberBetween n n'⟩
    · obtain ⟨m, rfl⟩ := exists_date_of_kind (dates low (by simp))
      obtain ⟨m', rfl⟩ := exists_date_of_kind (dates high (by simp))
      exact ⟨_, .dateBetween m m'⟩
  | equals negated =>
    obtain ⟨v, rfl⟩ := one right
    exact ⟨_, .equals negated v⟩
  | number bound =>
    obtain ⟨v, rfl⟩ := one right
    obtain ⟨n, rfl⟩ := exists_number_of_kind (fits v List.mem_cons_self)
    exact ⟨_, .number bound n⟩
  | string negated place =>
    obtain ⟨v, rfl⟩ := one right
    obtain ⟨part, rfl⟩ := exists_string_of_kind (fits v List.mem_cons_self)
    exact ⟨_, .string negated place part⟩
  | address relation =>
    obtain ⟨v, rfl⟩ := one right
    obtain ⟨s, a, rfl, read⟩ := fits v List.mem_cons_self
    exact ⟨_, .address relation read⟩
  | network negated =>
    obtain ⟨v, rfl⟩ := one right
    obtain ⟨s, n, rfl, read⟩ := fits v List.mem_cons_self
    exact ⟨_, .network negated read⟩
  | date negated side =>
    obtain ⟨v, rfl⟩ := one right
    rcases fits v List.mem_cons_self with date | ⟨s, m, rfl, read⟩
    · obtain ⟨m, rfl⟩ := exists_date_of_kind date
      exact ⟨_, .date negated side m⟩
    · exact ⟨_, .dateText negated side read⟩

/-- **Operands of the right number are accepted exactly if they have the right kinds.** -/
theorem exists_build_iff (right : op.arity.accepts vs.length = true) :
    (∃ p, build op vs = .ok p) ↔ op.Fits vs := by
  constructor
  · rintro ⟨p, built⟩
    exact (build_eq_ok_iff.mp built).fits
  · intro fits
    obtain ⟨p, built⟩ := exists_built right fits
    exact ⟨p, build_eq_ok_iff.mpr built⟩

end Predicate

/-! ## Reading -/

namespace Parser

variable {α : Type}

/-- Operators are read with as many operands as they take. -/
def Supplies (P : Parser (Operator × List Value)) : Prop :=
  ∀ (c d : Cursor) (op : Operator) (vs : List Value), P c = .ok (op, vs) d →
    op.arity.accepts vs.length = true

namespace Supplies

/-- What comes first does not matter. -/
theorem bind {P : Parser α} {k : α → Parser (Operator × List Value)}
    (h : ∀ a, Supplies (k a)) : Supplies (P >>= k) := by
  intro c d op vs result
  obtain ⟨a, e, -, behind⟩ := bind_eq_ok.mp result
  exact h a e d op vs behind

theorem pure {op : Operator} {vs : List Value} (h : op.arity.accepts vs.length = true) :
    Supplies (Pure.pure (op, vs)) := by
  intro c d op' vs' result
  obtain ⟨rfl, rfl⟩ := Prod.mk.inj (pure_eq_ok.mp result).1
  exact h

theorem unexpected (phrase : String) : Supplies (unexpected phrase) :=
  fun _ _ _ _ result => absurd result (unexpected_ne_ok phrase _)

/-- Something may come first where a test says so. -/
theorem first {test : Prop} [Decidable test] {Q : Parser PUnit}
    {k : PUnit → Parser (Operator × List Value)} (h : ∀ a, Supplies (k a)) :
    Supplies (if test then Q >>= k else k ⟨⟩) := by
  split
  · exact .bind h
  · exact h _

theorem withLiteral {op : Operator} (h : op.arity = .one) : Supplies (withLiteral op) :=
  .bind fun _ => .pure (by rw [h]; rfl)

/-- A list for operators that take one, and a literal for others. -/
theorem withOperands {op : Operator} (h : op.arity = .one ∨ op.arity = .list) :
    Supplies (withOperands op) := by
  cases op with
  | member negated => exact .bind fun _ => .pure rfl
  | _ => exact .withLiteral (h.resolve_right nofun)

end Supplies

/-- The operators that a word names take one operand, or a list. -/
theorem arity_of_wordOperator? {negated : Bool} {text : String} {op : Operator}
    (h : wordOperator? negated text = some op) : op.arity = .one ∨ op.arity = .list := by
  unfold wordOperator? at h
  split at h <;> cases h <;> simp [Operator.arity]

theorem arity_of_stateOperator? {negated : Bool} {t : Token} {op : Operator}
    (h : stateOperator? negated t = some op) : op.arity = .none := by
  unfold stateOperator? at h
  split at h
  · cases h
    rfl
  · cases h
    rfl
  · split at h <;> cases h
    rfl
  · split at h <;> cases h
    rfl
  · cases h

theorem supplies_state : Supplies state := by
  refine .bind fun t => .first fun _ => .bind fun t => ?_
  split
  · next op found => exact .bind fun _ => .pure (by rw [arity_of_stateOperator? found]; rfl)
  · exact .unexpected _

theorem supplies_negation : Supplies negation := by
  refine .bind fun t => ?_
  split
  · split
    · next op found => exact .bind fun _ => .withOperands (arity_of_wordOperator? found)
    · exact .unexpected _
  · exact .unexpected _

theorem supplies_addressing : Supplies addressing := by
  refine .bind fun t => ?_
  split
  · exact .bind fun _ => .withLiteral rfl
  · refine .bind fun t => ?_
    split
    · exact .bind fun _ => .withLiteral rfl
    · exact .bind fun _ => .bind fun _ => .first fun _ => .bind fun _ => .withLiteral rfl
    · exact .unexpected _

theorem supplies_range : Supplies range :=
  .bind fun _ => .bind fun _ => .bind fun _ => .pure rfl

theorem supplies_wordOperation (text : String) : Supplies (wordOperation text) := by
  rw [wordOperation.eq_def]
  split
  · exact .bind fun _ => supplies_state
  · exact .bind fun _ => supplies_negation
  · exact .bind fun _ => supplies_addressing
  · exact .bind fun _ => supplies_range
  · exact .bind fun _ => .pure rfl
  · exact .bind fun _ => .pure rfl
  · split
    · next op found => exact .bind fun _ => .withOperands (arity_of_wordOperator? found)
    · exact .unexpected _

/-- **Operators are read with the operands they need.** -/
theorem supplies_operation : Supplies operation := by
  refine .bind fun t => ?_
  split
  · next relation _ => exact .bind fun _ => .withLiteral (by cases relation <;> rfl)
  · refine .bind fun t => ?_
    split
    · exact supplies_wordOperation _
    · exact .unexpected _

/-- An operator is read with its operands, and then looked at. -/
theorem predicate_run (c : Cursor) : predicate c = match operation c with
    | .ok (op, operands) d => match Predicate.build op operands with
      | .ok p => .ok p d
      | .error fault => .error ⟨c.current.position, .operand fault⟩ d
    | .error fault d => .error fault d := by
  have place : position c = .ok c.current.position c := rfl
  rw [predicate, bind_ok place]
  cases read : operation c with
  | error fault d => rw [bind_error read]
  | ok found d =>
    rw [bind_ok read]
    dsimp only
    cases Predicate.build found.1 found.2 <;> rfl

end Parser

end Compliance
