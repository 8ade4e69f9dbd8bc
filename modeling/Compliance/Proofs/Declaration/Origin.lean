import Compliance.Declaration.Reader

/-!
# What a text declares

A text that is read for one kind of declarations has no others, and each knows the
file that it comes from.

## Main definitions

* `Ensures f P` — all values of `f` satisfy `P`.
* `Declaration.kind_and_file_of_parse` — what is known of the declarations of a text.
-/

namespace Compliance

open Declaration

/-- Whatever something that may fail has as a value satisfies a condition. -/
def Ensures {ε σ α : Type} (f : EStateM ε σ α) (P : α → Prop) : Prop :=
  ∀ s a t, f s = .ok a t → P a

namespace Ensures

variable {ε σ α β : Type} {f : EStateM ε σ α} {P : α → Prop} {Q : β → Prop}

theorem any (f : EStateM ε σ α) : Ensures f fun _ => True := fun _ _ _ _ => trivial

theorem pure {a : α} (h : P a) : Ensures (pure a : EStateM ε σ α) P := by
  intro s b t result
  cases result
  exact h

theorem bind {k : α → EStateM ε σ β} (h : Ensures f P) (hk : ∀ a, P a → Ensures (k a) Q) :
    Ensures (f >>= k) Q := by
  intro s b t result
  change EStateM.bind f k s = _ at result
  rw [EStateM.bind] at result
  cases hf : f s with
  | ok a u =>
    rw [hf] at result
    exact hk a (h s a u hf) u b t result
  | error e u =>
    rw [hf] at result
    cases result

/-- What comes first does not matter. -/
theorem behind {k : α → EStateM ε σ β} (hk : ∀ a, Ensures (k a) Q) : Ensures (f >>= k) Q :=
  (any f).bind fun a _ => hk a

theorem map {k : α → β} (h : Ensures f P) (less : ∀ a, P a → Q (k a)) : Ensures (k <$> f) Q := by
  have bound : Ensures (f >>= fun a => Pure.pure (k a)) Q := h.bind fun a ha => pure (less a ha)
  rwa [bind_pure_comp] at bound

theorem plain {parser : Parser α} (h : Ensures parser P) : Ensures parser.plain P := by
  intro p a q result
  rw [Parser.plain] at result
  cases hp : parser p.cursor with
  | ok b c =>
    rw [hp] at result
    cases result
    exact h p.cursor a c hp
  | error fault c =>
    rw [hp] at result
    cases result

end Ensures

/-! ## Declarations -/

namespace Parser

theorem ensures_header (file : String) (kind : DeclarationKind) :
    Ensures (header file kind) fun start => start.2.file = file := by
  have origin : Ensures (origin file) fun origin => origin.file = file :=
    Ensures.behind fun _ => Ensures.pure rfl
  refine origin.bind fun origin ho => ?_
  exact Ensures.behind fun _ => Ensures.behind fun _ => Ensures.pure ho

theorem ensures_refuseBlock {α : Type} (P : α → Prop) : Ensures (refuseBlock : Parser α) P := by
  refine Ensures.behind fun t => ?_
  split <;>
  · intro _ _ _ result
    cases result

theorem ensures_rule (file : String) (levels : Nat) :
    Ensures (rule file levels) fun r => r.origin.file = file := by
  refine (ensures_header file .rule).bind fun (name, origin) ho => ?_
  refine Ensures.behind fun _ => Ensures.behind fun target => ?_
  cases levels with
  | zero => exact (ensures_refuseBlock fun _ => True).bind fun _ _ => Ensures.pure ho
  | succ below => exact Ensures.behind fun (parts, assertions) => Ensures.pure ho

end Parser

namespace Reader

variable (reader : Reader)

theorem ensures_group (levels : Nat) :
    Ensures (reader.group levels) fun d => d.origin.file = reader.file := by
  refine (Parser.ensures_header reader.file .group).plain.bind fun (name, origin) ho => ?_
  cases levels with
  | zero => exact (Parser.ensures_refuseBlock _).plain
  | succ below =>
    refine Ensures.behind fun _ => Ensures.behind fun members => Ensures.behind fun _ => ?_
    exact Ensures.pure ho

theorem ensures_module (levels : Nat) :
    Ensures (reader.module levels) fun d => d.origin.file = reader.file := by
  cases levels with
  | zero => exact Ensures.behind fun _ => (Parser.ensures_refuseBlock _).plain
  | succ below =>
    refine (Parser.ensures_header reader.file .module).plain.bind fun (name, origin) ho => ?_
    refine Ensures.behind fun _ => Ensures.behind fun members => Ensures.behind fun _ => ?_
    exact Ensures.pure ho

theorem ensures_plan (levels : Nat) :
    Ensures (reader.plan levels) fun d => d.origin.file = reader.file := by
  refine (Parser.ensures_header reader.file .plan).plain.bind fun (name, origin) ho => ?_
  cases levels with
  | zero => exact (Parser.ensures_refuseBlock _).plain
  | succ below =>
    refine Ensures.behind fun _ => Ensures.behind fun members => Ensures.behind fun _ => ?_
    exact Ensures.pure ho

/-- A declaration is of the kind that is read, and starts in the file that is read. -/
theorem ensures_declaration (kind : DeclarationKind) : Ensures (reader.declaration kind)
    fun d => d.kind = kind ∧ d.origin.file = reader.file := by
  have right : Ensures (reader.declarationOf kind)
      fun d => d.kind = kind ∧ d.origin.file = reader.file := by
    cases kind with
    | plan => exact (reader.ensures_plan _).map fun _ hd => ⟨rfl, hd⟩
    | module => exact (reader.ensures_module _).map fun _ hd => ⟨rfl, hd⟩
    | group => exact (reader.ensures_group _).map fun _ hd => ⟨rfl, hd⟩
    | rule => exact (Parser.ensures_rule _ _).plain.map fun _ hd => ⟨rfl, hd⟩
  refine Ensures.behind fun t => ?_
  split
  · intro _ _ _ result
    cases result
  · next found _ =>
    by_cases wrong : found ≠ kind
    · simp only [if_pos wrong]
      exact Ensures.behind fun _ => right
    · simp only [if_neg wrong]
      exact right

/-- What every declaration at the top of a text is, all declarations of the text are. -/
theorem forall_mem_run {kind : DeclarationKind} {P : Declaration → Prop}
    (h : Ensures (reader.declaration kind) P) (p : Progress) :
    ∀ d ∈ (reader.run kind p).declarations, P d := by
  have top {p q : Progress} {found : Declaration} (read : reader.topLevel kind p = .ok found q) :
      P found := by
    rw [topLevel_eq] at read
    split at read
    · cases read
    · exact h p found q read
  induction p using Recovering.round_induction Recovering.eof_or reader.mode topKeywords 0
    (reader.topLevel kind) with
  | finish p ended =>
    rw [run_eof ended]
    exact List.forall_mem_nil _
  | more p found q continues read less ih =>
    rw [run_cons continues read less]
    exact List.forall_mem_cons.mpr ⟨top read, ih⟩
  | last p found q continues read less =>
    rw [run_last continues read less]
    exact List.forall_mem_singleton.mpr (top read)
  | past p fault q r continues read recovers less ih =>
    rw [run_recover continues read recovers less]
    exact ih
  | rest p fault q r continues read recovers less =>
    rw [run_recover_last continues read recovers less]
    exact List.forall_mem_nil _
  | stop p fault q stop r continues read stops =>
    rw [run_stop continues read stops]
    exact List.forall_mem_nil _

end Reader

/-- **The declarations of a text are of the kind that it is read for**, and come from its file. -/
theorem Declaration.kind_and_file_of_parse {source file : String} {kind : DeclarationKind}
    {ds : List Declaration} (h : parse source file kind = .ok ds) :
    ∀ d ∈ ds, d.kind = kind ∧ d.origin.file = file := by
  rw [parse] at h
  cases hs : Token.scan source with
  | error e =>
    rw [hs] at h
    cases h
  | ok tokens =>
    rw [hs] at h
    simp only at h
    split at h
    · obtain rfl := Except.ok.inj h
      exact Reader.forall_mem_run _ (Reader.ensures_declaration _ kind) _
    · cases h

theorem Declaration.parse_empty (file : String) (kind : DeclarationKind) :
    parse "" file kind = .ok [] := by
  have nothing : Token.scan "" = .ok [⟨.eof, Position.start⟩] := by
    rw [Token.scan, String.toList_empty, Token.scanFrom]
  have ended : readTokens ⟨file, .failFast⟩ kind [⟨.eof, Position.start⟩] = ⟨[], [], none⟩ :=
    Reader.run_eof rfl
  exact parse_eq_ok nothing ended

end Compliance
