import Compliance.Declaration.Reader

/-!
# Reading in two modes

A reader is put together from parsers that know no mode, one behind the other, and from
the members of blocks, where the mode decides what follows a fault.  So a relation between
what is done in one mode and what is done in another holds of whole declarations as soon
as it holds of parsers, and is kept by sequences and by blocks of members.  It need not
hold of all parsers, only of those that declarations are read with.

## Main definitions

* `Parser.Throughout` — what holds of the parsers that declarations are read with.
* `Recovering.CongruenceOn` — a relation that parts of reading hand on to the whole.
* `Recovering.CongruenceOn.topLevel` — then it holds of the declarations of a text.
* `Recovering.Congruence` — such a relation that holds of all parsers.
-/

namespace Compliance

open Declaration

/-- What holds of the parsers that declarations are read with. -/
structure Parser.Throughout (good : ∀ {α : Type}, Parser α → Prop) : Prop where
  pure : ∀ {α : Type} (a : α), good (Pure.pure a : Parser α)
  token : good Parser.token
  unexpected : ∀ {α : Type} (phrase : String), good (Parser.unexpected phrase : Parser α)
  wrongKind : ∀ {α : Type} (wanted found : DeclarationKind),
    good (Parser.refuse (.wrongKind wanted found) : Parser α)
  strayBrace : ∀ {α : Type}, good (Parser.strayBrace : Parser α)
  openBlock : good Parser.openBlock
  closeBlock : good Parser.closeBlock
  refuseBlock : ∀ {α : Type}, good (Parser.refuseBlock : Parser α)
  setting : ∀ file, good (Parser.setting file)
  inclusion : ∀ file kinds, good (Parser.inclusion file kinds)
  header : ∀ file kind, good (Parser.header file kind)
  rule : ∀ file levels, good (Parser.rule file levels)

namespace Recovering

/-- A relation between parts of reading in two modes.  It holds of the parsers that declarations are
read with, which are the same in both, and parts in sequence and the members of a block have it from
those they are made of. -/
structure CongruenceOn (good : ∀ {α : Type}, Parser α → Prop) (mode mode' : Mode)
    (R : ∀ {α : Type}, Recovering α → Recovering α → Prop) : Prop extends
    Parser.Throughout good where
  plain : ∀ {α : Type} {parser : Parser α}, good parser → R parser.plain parser.plain
  bind : ∀ {α β : Type} {f g : Recovering α} {k l : α → Recovering β},
    R f g → (∀ a, R (k a) (l a)) → R (f >>= k) (g >>= l)
  members : ∀ {α : Type} {f g : Recovering α} (keywords : List String),
    R f g → R (members mode keywords f) (members mode' keywords g)

namespace CongruenceOn

variable {good : ∀ {α : Type}, Parser α → Prop} {mode mode' : Mode}
  {R : ∀ {α : Type}, Recovering α → Recovering α → Prop} {α β : Type} {f g : Recovering α}
  {file : String}

theorem value (h : CongruenceOn good mode mode' R) (a : α) :
    R (Pure.pure a : Recovering α) (Pure.pure a) :=
  h.plain (h.pure a)

theorem map (h : CongruenceOn good mode mode' R) (fg : R f g) (k : α → β) :
    R (k <$> f) (k <$> g) := by
  have bound := h.bind fg fun a => h.value (k a)
  rwa [bind_pure_comp, bind_pure_comp] at bound

/-! ## Declarations -/

theorem groupMember (h : CongruenceOn good mode mode' R) (levels : Nat) :
    R (Reader.groupMember ⟨file, mode⟩ levels) (Reader.groupMember ⟨file, mode'⟩ levels) := by
  refine h.bind (h.plain h.token) fun t => ?_
  split
  · exact h.map (h.plain (h.setting file)) _
  · exact h.map (h.plain (h.inclusion file _)) _
  · exact h.map (h.plain (h.rule file levels)) _
  · exact h.plain (h.unexpected _)

theorem group (h : CongruenceOn good mode mode' R) (levels : Nat) :
    R (Reader.group ⟨file, mode⟩ levels) (Reader.group ⟨file, mode'⟩ levels) := by
  refine h.bind (h.plain (h.header file .group)) fun (name, origin) => ?_
  cases levels with
  | zero => exact h.plain h.refuseBlock
  | succ below =>
    refine h.bind (h.plain h.openBlock) fun _ => ?_
    refine h.bind (h.members _ (h.groupMember below)) fun members => ?_
    exact h.bind (h.plain h.closeBlock) fun _ => h.value _

theorem moduleMember (h : CongruenceOn good mode mode' R) (levels : Nat) {f g : Recovering Module}
    (fg : R f g) : R (Reader.moduleMember ⟨file, mode⟩ levels f)
      (Reader.moduleMember ⟨file, mode'⟩ levels g) := by
  refine h.bind (h.plain h.token) fun t => ?_
  split
  · exact h.map (h.plain (h.setting file)) _
  · exact h.map (h.plain (h.inclusion file _)) _
  · exact h.map fg _
  · exact h.map (h.group levels) _
  · exact h.map (h.plain (h.rule file levels)) _
  · exact h.plain (h.unexpected _)

theorem module (h : CongruenceOn good mode mode' R) (levels : Nat) :
    R (Reader.module ⟨file, mode⟩ levels) (Reader.module ⟨file, mode'⟩ levels) := by
  induction levels with
  | zero => exact h.bind (h.plain (h.header file .module)) fun _ => h.plain h.refuseBlock
  | succ below ih =>
    refine h.bind (h.plain (h.header file .module)) fun (name, origin) => ?_
    refine h.bind (h.plain h.openBlock) fun _ => ?_
    refine h.bind (h.members _ (h.moduleMember below ih)) fun members => ?_
    exact h.bind (h.plain h.closeBlock) fun _ => h.value _

theorem planMember (h : CongruenceOn good mode mode' R) (levels : Nat) :
    R (Reader.planMember ⟨file, mode⟩ levels) (Reader.planMember ⟨file, mode'⟩ levels) := by
  refine h.bind (h.plain h.token) fun t => ?_
  split
  · exact h.map (h.plain (h.setting file)) _
  · exact h.map (h.plain (h.inclusion file _)) _
  · exact h.map (h.module levels) _
  · exact h.plain (h.unexpected _)

theorem plan (h : CongruenceOn good mode mode' R) (levels : Nat) :
    R (Reader.plan ⟨file, mode⟩ levels) (Reader.plan ⟨file, mode'⟩ levels) := by
  refine h.bind (h.plain (h.header file .plan)) fun (name, origin) => ?_
  cases levels with
  | zero => exact h.plain h.refuseBlock
  | succ below =>
    refine h.bind (h.plain h.openBlock) fun _ => ?_
    refine h.bind (h.members _ (h.planMember below)) fun members => ?_
    exact h.bind (h.plain h.closeBlock) fun _ => h.value _

theorem declaration (h : CongruenceOn good mode mode' R) (kind : DeclarationKind) :
    R (Reader.declaration ⟨file, mode⟩ kind) (Reader.declaration ⟨file, mode'⟩ kind) := by
  have behind : R (Reader.declarationOf ⟨file, mode⟩ kind)
      (Reader.declarationOf ⟨file, mode'⟩ kind) := by
    cases kind with
    | plan => exact h.map (h.plan _) _
    | module => exact h.map (h.module _) _
    | group => exact h.map (h.group _) _
    | rule => exact h.map (h.plain (h.rule file _)) _
  refine h.bind (h.plain h.token) fun t => ?_
  split
  · exact h.plain (h.unexpected _)
  · next found _ =>
    by_cases wrong : found ≠ kind
    · simp only [if_pos wrong]
      exact h.bind (h.plain (h.wrongKind _ _)) fun _ => behind
    · simp only [if_neg wrong]
      exact behind

/-- **A relation that is handed on holds of the declarations of a text.** -/
theorem topLevel (h : CongruenceOn good mode mode' R) (kind : DeclarationKind) :
    R (Reader.topLevel ⟨file, mode⟩ kind) (Reader.topLevel ⟨file, mode'⟩ kind) := by
  refine h.bind (h.plain h.token) fun t => ?_
  split
  · exact h.plain h.strayBrace
  · exact h.declaration kind

end CongruenceOn

/-! ## Relations of all parsers -/

/-- A relation between parts of reading in two modes.  It holds of every parser, which is the same
in both, and parts in sequence and the members of a block have it from those they are made of. -/
structure Congruence (mode mode' : Mode)
    (R : ∀ {α : Type}, Recovering α → Recovering α → Prop) : Prop where
  plain : ∀ {α : Type} (parser : Parser α), R parser.plain parser.plain
  bind : ∀ {α β : Type} {f g : Recovering α} {k l : α → Recovering β},
    R f g → (∀ a, R (k a) (l a)) → R (f >>= k) (g >>= l)
  members : ∀ {α : Type} {f g : Recovering α} (keywords : List String),
    R f g → R (members mode keywords f) (members mode' keywords g)

namespace Congruence

variable {mode mode' : Mode} {R : ∀ {α : Type}, Recovering α → Recovering α → Prop}
  {file : String}

theorem on (h : Congruence mode mode' R) : CongruenceOn (fun _ => True) mode mode' R := by
  constructor
  · constructor <;> intros <;> trivial
  · exact fun _ => h.plain _
  · exact h.bind
  · exact h.members

theorem groupMember (h : Congruence mode mode' R) (levels : Nat) :
    R (Reader.groupMember ⟨file, mode⟩ levels) (Reader.groupMember ⟨file, mode'⟩ levels) :=
  h.on.groupMember levels

theorem moduleMember (h : Congruence mode mode' R) (levels : Nat) {f g : Recovering Module}
    (fg : R f g) : R (Reader.moduleMember ⟨file, mode⟩ levels f)
      (Reader.moduleMember ⟨file, mode'⟩ levels g) :=
  h.on.moduleMember levels fg

theorem module (h : Congruence mode mode' R) (levels : Nat) :
    R (Reader.module ⟨file, mode⟩ levels) (Reader.module ⟨file, mode'⟩ levels) :=
  h.on.module levels

theorem planMember (h : Congruence mode mode' R) (levels : Nat) :
    R (Reader.planMember ⟨file, mode⟩ levels) (Reader.planMember ⟨file, mode'⟩ levels) :=
  h.on.planMember levels

theorem topLevel (h : Congruence mode mode' R) (kind : DeclarationKind) :
    R (Reader.topLevel ⟨file, mode⟩ kind) (Reader.topLevel ⟨file, mode'⟩ kind) :=
  h.on.topLevel kind

end Congruence

end Recovering

end Compliance
