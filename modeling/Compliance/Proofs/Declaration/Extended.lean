import Compliance.Proofs.Declaration.Lowered
import Compliance.Proofs.Declaration.Modes
import Compliance.Proofs.Statement.Grammar
import Compliance.Proofs.Token.Extended

/-!
# Declarations in front of more

A declaration ends with a closing brace, and nothing behind that brace has a part in
how it is read.  So where a text is read to its end without a fault, its tokens have
the same declarations in front of others, and the others are read as if they were
alone.

## Main definitions

* `Parser.rule_closes` — a rule is the same some lines further down and in front of more.
* `Reader.declaration_closes` — so is any declaration.
* `Reader.run_extend` — reading goes on with what is behind.
-/

namespace Compliance

open Declaration Recovering

variable {file : String} {n : Nat} {tail : Cursor}

/-! ## Rules -/

namespace Parser

theorem origin_carries :
    Carries n tail (Origin.lowered n) (origin file) (origin file) :=
  Carries.position.bind fun _ => Carries.pure rfl

theorem setting_carries (ht : tail.Scanned) :
    Carries n tail (Assignment.lowered n) (setting file) (setting file) := by
  refine origin_carries.bind fun origin => (Carries.expect _).bind fun _ => ?_
  refine (Carries.reference _).bind fun key => (Carries.expect _).bind fun _ => ?_
  exact (Carries.of_takes ht fun hc => literal_eq_ok hc).bind fun _ => Carries.pure rfl

theorem inclusion_carries (kinds : List DeclarationKind) :
    Carries n tail (Prod.map id (Inclusion.lowered n)) (inclusion file kinds)
      (inclusion file kinds) := by
  refine origin_carries.bind fun origin => (Carries.expect _).bind fun _ => ?_
  refine Carries.token.bind fun t => ?_
  split
  · exact Carries.advance.bind fun _ => Carries.string.bind fun _ => Carries.pure rfl
  · exact Carries.unexpected _

theorem header_carries (kind : DeclarationKind) :
    Carries n tail (Prod.map id (Origin.lowered n)) (header file kind) (header file kind) := by
  refine origin_carries.bind fun origin => (Carries.expect _).bind fun _ => ?_
  exact (Carries.nameOf _).bind fun _ => Carries.pure rfl

theorem block_carries (ht : tail.Scanned) (levels : Nat) : Keeps n tail (block levels) :=
  Carries.of_takes ht fun hc => block_eq_ok hc

theorem rulePart_carries (ht : tail.Scanned) (name : String) (levels : Nat) (parts : RuleParts) :
    Carries n tail (RuleParts.lowered n) (rulePart file name levels parts)
      (rulePart file name levels (parts.lowered n)) := by
  refine Carries.token.bind fun t => ?_
  split
  · exact (setting_carries ht).bind fun _ => Carries.pure rfl
  · exact Carries.guarded (Carries.advance.bind fun _ =>
      (block_carries ht levels).bind fun _ => Carries.pure rfl)
  · exact Carries.guarded (Carries.advance.bind fun _ =>
      (block_carries ht levels).bind fun _ => Carries.pure rfl)
  · exact Carries.unexpected _

theorem refuseBlock_ne_ok {α : Type} (c : Cursor) (a : α) (d : Cursor) :
    refuseBlock c ≠ .ok a d := by
  rw [refuseBlock, token_bind]
  split
  · exact refuse_ne_ok _ a
  · exact unexpected_ne_ok _ a

/-- What stands in the braces of a rule.  The assertions have to be there before the closing brace
is looked for. -/
def ruleParts (file name : String) (levels : Nat) : Parser (RuleParts × List Statement) := do
  let parts ← foldWhile (fun c => !c.atBlockEnd) (rulePart file name levels) {}
  match parts.assertions with
  | none => refuse (.missingAssertions name)
  | some assertions => return (parts, assertions)

theorem ruleBody_eq (name : String) (levels : Nat) :
    ruleBody file name levels = braced (fun body => body) (ruleParts file name levels) := by
  simp only [ruleBody, ruleParts, braced_cursor, bind_assoc]
  refine bind_congr fun _ => bind_congr fun parts => ?_
  cases parts.assertions with
  | none => rfl
  | some assertions =>
    rw [pure_bind]
    rfl

theorem ruleParts_carries (ht : tail.Scanned) (name : String) (levels : Nat) :
    Carries n tail (Prod.map (RuleParts.lowered n) id) (ruleParts file name levels)
      (ruleParts file name levels) := by
  have parts : Carries n tail (RuleParts.lowered n)
      (foldWhile (fun c => !c.atBlockEnd) (rulePart file name levels) {})
      (foldWhile (fun c => !c.atBlockEnd) (rulePart file name levels) {}) :=
    Carries.foldWhile (fun c more => by rw [Cursor.atBlockEnd, Cursor.token_extend more]; rfl)
      (rulePart_carries ht name levels) {}
  refine parts.bind fun parts => ?_
  have lowered : (parts.lowered n).assertions = parts.assertions := rfl
  rw [lowered]
  cases parts.assertions with
  | none => exact Carries.refuse _
  | some assertions => exact Carries.pure rfl

theorem ruleBody_closes (ht : tail.Scanned) (name : String) (levels : Nat) :
    Closes n tail (Prod.map (RuleParts.lowered n) id) (ruleBody file name levels)
      (ruleBody file name levels) := by
  rw [ruleBody_eq]
  exact Closes.braced (ruleParts_carries ht name levels) fun _ => rfl

/-- **A rule is the same in front of more.** -/
theorem rule_closes (ht : tail.Scanned) (levels : Nat) :
    Closes n tail (Rule.lowered n) (rule file levels) (rule file levels) := by
  refine Closes.bind (header_carries .rule) fun (name, origin) => ?_
  refine Closes.bind (Carries.expect _) fun _ => ?_
  refine Closes.bind (Carries.reference _) fun target => ?_
  cases levels with
  | zero => exact Closes.never (bind_ne_ok refuseBlock_ne_ok _)
  | succ below =>
    refine (ruleBody_closes ht name below).into fun (parts, assertions) => ⟨_, rfl, ?_⟩
    simp [Rule.lowered, RuleParts.lowered]

end Parser

/-! ## Members -/

instance : MovesCursor Progress where
  withCursor p c := { p with cursor := c }
  cursor_withCursor _ _ := rfl
  withCursor_withCursor _ _ _ := rfl

@[simp] theorem Progress.cursor_extend (p : Progress) :
    (MovesCursor.extend n tail p).cursor = p.cursor.extend n tail := rfl

@[simp] theorem Progress.size_extend (p : Progress) :
    (MovesCursor.extend n tail p).size = p.size + tail.size :=
  Cursor.size_extend

theorem Progress.token_extend {p : Progress} (more : p.cursor.ahead ≠ []) :
    (MovesCursor.extend n tail p).cursor.token = p.cursor.token :=
  Cursor.token_extend more

theorem Progress.atBlockEnd_extend {p : Progress} (more : p.cursor.ahead ≠ []) :
    (MovesCursor.extend n tail p).cursor.atBlockEnd = p.cursor.atBlockEnd := by
  rw [Cursor.atBlockEnd, token_extend more, Cursor.atBlockEnd]

theorem Carries.plain {α β : Type} {f : α → β} {P : Parser α} {Q : Parser β}
    (h : Carries n tail f P Q) : Carries n tail f P.plain Q.plain :=
  h.within

theorem Closes.plain {α β : Type} {f : α → β} {P : Parser α} {Q : Parser β}
    (h : Closes n tail f P Q) : Closes n tail f P.plain Q.plain :=
  h.within

namespace Recovering

variable {α β : Type} {f : α → β} {member : Recovering α} {member' : Recovering β}
  {keywords : List String}

theorem membersAt_carries (h : Carries n tail f member member') (base : Nat) :
    Carries n tail (List.map f) (membersAt .failFast keywords base member)
      (membersAt .failFast keywords base member') := by
  have continuing {p r : Progress} (suffix : r.cursor.placed <:+ p.cursor.placed)
      (more : r.cursor.ahead ≠ []) :
      (MovesCursor.extend n tail p).cursor.atBlockEnd = p.cursor.atBlockEnd :=
    Progress.atBlockEnd_extend (Cursor.ahead_ne_nil_of_suffix suffix more)
  have main (p : Progress) {q : Progress} {as : List α} (scanned : p.cursor.Scanned)
      (result : membersAt .failFast keywords base member p = .ok as q) :
      (q.cursor.placed <:+ p.cursor.placed ∧ q.cursor.depth = p.cursor.depth) ∧
      (q.cursor.ahead ≠ [] →
        membersAt .failFast keywords base member' (MovesCursor.extend n tail p) =
          .ok (as.map f) (MovesCursor.extend n tail q)) := by
    induction p using round_induction atBlockEnd_or .failFast keywords base member
      generalizing as with
    | finish p ends =>
      rw [membersAt_end ends] at result
      cases result
      exact ⟨⟨List.suffix_rfl, rfl⟩, fun more =>
        membersAt_end ((Progress.atBlockEnd_extend more).trans ends)⟩
    | more p a r continues first less ih =>
      obtain ⟨suffix, depth⟩ : r.cursor.placed <:+ p.cursor.placed ∧
        r.cursor.depth = p.cursor.depth := h.onward scanned first
      rw [membersAt_cons continues first less, EStateM.map] at result
      cases behind : membersAt .failFast keywords base member r with
      | error fault u =>
        rw [behind] at result
        cases result
      | ok bs u =>
        rw [behind] at result
        cases result
        obtain ⟨⟨suffix', depth'⟩, carried⟩ := ih (scanned.of_suffix suffix) behind
        refine ⟨⟨suffix'.trans suffix, depth'.trans depth⟩, fun more => ?_⟩
        have inside := Cursor.ahead_ne_nil_of_suffix suffix' more
        rw [membersAt_cons ((continuing suffix inside).trans continues)
            (h.carry scanned first inside) (by simpa [Progress.size] using less),
          EStateM.map, carried more]
        rfl
    | last p a r continues first less =>
      have onward : r.cursor.placed <:+ p.cursor.placed ∧ r.cursor.depth = p.cursor.depth :=
        h.onward scanned first
      have carry := h.carry scanned first
      rw [membersAt_last continues first less] at result
      cases result
      exact ⟨onward, fun more => membersAt_last ((continuing onward.1 more).trans continues)
        (carry more) (by simpa [Progress.size] using less)⟩
    | past _ _ _ _ _ _ recovers => cases recovers
    | rest _ _ _ _ _ _ recovers => cases recovers
    | stop p fault r _ _ continues first =>
      rw [membersAt_stop continues first rfl] at result
      cases result
  exact {
    onward := fun scanned result => (main _ scanned result).1
    carry := fun scanned result more => (main _ scanned result).2 more }

theorem members_carries (h : Carries n tail f member member') :
    Carries n tail (List.map f) (members .failFast keywords member)
      (members .failFast keywords member') where
  onward {p q as} scanned result := (membersAt_carries h p.cursor.depth).onward scanned result
  carry {p q as} scanned result more := by
    have there : membersAt .failFast keywords p.cursor.depth member' (MovesCursor.extend n tail p) =
        .ok (as.map f) (MovesCursor.extend n tail q) :=
      (membersAt_carries h p.cursor.depth).carry scanned result more
    have depth : (MovesCursor.extend n tail p).cursor.depth = p.cursor.depth := Cursor.depth_extend
    rw [← depth] at there
    exact there

end Recovering

namespace Reader

theorem settingMember_carries (ht : tail.Scanned) :
    Carries n tail (Member.lowered n) (settingMember ⟨file, .failFast⟩)
      (settingMember ⟨file, .failFast⟩) :=
  (Parser.setting_carries ht).plain.map fun _ => rfl

theorem inclusionMember_carries (kinds : List DeclarationKind) :
    Carries n tail (Member.lowered n) (inclusionMember ⟨file, .failFast⟩ kinds)
      (inclusionMember ⟨file, .failFast⟩ kinds) :=
  (Parser.inclusion_carries kinds).plain.map fun _ => rfl

theorem ruleMember_carries (ht : tail.Scanned) (levels : Nat) :
    Carries n tail (Member.lowered n) (ruleMember ⟨file, .failFast⟩ levels)
      (ruleMember ⟨file, .failFast⟩ levels) :=
  (Parser.rule_closes ht levels).toCarries.plain.map fun _ => rfl

theorem groupMember_carries (ht : tail.Scanned) (levels : Nat) :
    Carries n tail (Member.lowered n) (groupMember ⟨file, .failFast⟩ levels)
      (groupMember ⟨file, .failFast⟩ levels) := by
  refine Carries.token.plain.bind fun t => ?_
  split
  · exact settingMember_carries ht
  · exact inclusionMember_carries _
  · exact ruleMember_carries ht levels
  · exact (Carries.unexpected _).plain

theorem refuseBlock_closes {α β : Type} {f : α → β} :
    Closes n tail f (Parser.refuseBlock : Parser α).plain (Parser.refuseBlock : Parser β).plain :=
  (Closes.never Parser.refuseBlock_ne_ok).plain

theorem group_closes (ht : tail.Scanned) (levels : Nat) :
    Closes n tail (Group.lowered n) (group ⟨file, .failFast⟩ levels)
      (group ⟨file, .failFast⟩ levels) := by
  refine Closes.bind (Parser.header_carries .group).plain fun (name, origin) => ?_
  cases levels with
  | zero => exact refuseBlock_closes
  | succ below =>
    refine Closes.braced (members_carries (groupMember_carries ht below)) fun members => ?_
    simp [Group.lowered]

theorem moduleMember_carries (ht : tail.Scanned) (levels : Nat) {inner : Recovering Module}
    (h : Carries n tail (Module.lowered n) inner inner) :
    Carries n tail (Member.lowered n) (moduleMember ⟨file, .failFast⟩ levels inner)
      (moduleMember ⟨file, .failFast⟩ levels inner) := by
  refine Carries.token.plain.bind fun t => ?_
  split
  · exact settingMember_carries ht
  · exact inclusionMember_carries _
  · exact h.map fun _ => rfl
  · exact (group_closes ht levels).toCarries.map fun _ => rfl
  · exact ruleMember_carries ht levels
  · exact (Carries.unexpected _).plain

theorem module_closes (ht : tail.Scanned) (levels : Nat) :
    Closes n tail (Module.lowered n) (module ⟨file, .failFast⟩ levels)
      (module ⟨file, .failFast⟩ levels) := by
  induction levels with
  | zero => exact Closes.bind (Parser.header_carries .module).plain fun _ => refuseBlock_closes
  | succ below ih =>
    refine Closes.bind (Parser.header_carries .module).plain fun (name, origin) => ?_
    refine Closes.braced (members_carries (moduleMember_carries ht below ih.toCarries))
      fun members => ?_
    simp [Module.lowered, Module.loweredAll_eq]

theorem planMember_carries (ht : tail.Scanned) (levels : Nat) :
    Carries n tail (Member.lowered n) (planMember ⟨file, .failFast⟩ levels)
      (planMember ⟨file, .failFast⟩ levels) := by
  refine Carries.token.plain.bind fun t => ?_
  split
  · exact settingMember_carries ht
  · exact inclusionMember_carries _
  · exact (module_closes ht levels).toCarries.map fun _ => rfl
  · exact (Carries.unexpected _).plain

theorem plan_closes (ht : tail.Scanned) (levels : Nat) :
    Closes n tail (Plan.lowered n) (plan ⟨file, .failFast⟩ levels)
      (plan ⟨file, .failFast⟩ levels) := by
  refine Closes.bind (Parser.header_carries .plan).plain fun (name, origin) => ?_
  cases levels with
  | zero => exact refuseBlock_closes
  | succ below =>
    refine Closes.braced (members_carries (planMember_carries ht below)) fun members => ?_
    simp [Plan.lowered]

/-! ## Source texts -/

theorem declarationOf_closes (ht : tail.Scanned) (kind : DeclarationKind) :
    Closes n tail (Declaration.lowered n) (declarationOf ⟨file, .failFast⟩ kind)
      (declarationOf ⟨file, .failFast⟩ kind) := by
  cases kind with
  | plan => exact (plan_closes ht maxNesting).map fun _ => rfl
  | module => exact (module_closes ht maxNesting).map fun _ => rfl
  | group => exact (group_closes ht maxNesting).map fun _ => rfl
  | rule => exact (Parser.rule_closes ht maxNesting).plain.map fun _ => rfl

/-- **A declaration is the same in front of more.** -/
theorem declaration_closes (ht : tail.Scanned) (kind : DeclarationKind) :
    Closes n tail (Declaration.lowered n) (declaration ⟨file, .failFast⟩ kind)
      (declaration ⟨file, .failFast⟩ kind) := by
  refine Closes.bind Carries.token.plain fun t => ?_
  split
  · exact (Closes.never fun _ _ _ => Parser.unexpected_ne_ok _ _).plain
  · next found _ =>
    by_cases wrong : found ≠ kind
    · simp only [if_pos wrong]
      exact Closes.bind (Carries.refuse (f := fun u => u) _).plain fun _ =>
        declarationOf_closes ht kind
    · simp only [if_neg wrong]
      exact declarationOf_closes ht kind

theorem topLevel_closes (ht : tail.Scanned) (kind : DeclarationKind) :
    Closes n tail (Declaration.lowered n) (topLevel ⟨file, .failFast⟩ kind)
      (topLevel ⟨file, .failFast⟩ kind) := by
  have inner : Closes n tail (Declaration.lowered n) (declaration ⟨file, .failFast⟩ kind)
      (declaration ⟨file, .failFast⟩ kind) := declaration_closes ht kind
  have started {p q : Progress} {d : Declaration}
      (result : topLevel ⟨file, .failFast⟩ kind p = .ok d q) :
      p.cursor.token ≠ .braceClose ∧ declaration ⟨file, .failFast⟩ kind p = .ok d q := by
    rw [topLevel_eq] at result
    split at result
    · cases result
    · next other => exact ⟨other, result⟩
  have close {p q : Progress} {d : Declaration} (scanned : p.cursor.Scanned)
      (result : topLevel ⟨file, .failFast⟩ kind p = .ok d q) :
      topLevel ⟨file, .failFast⟩ kind (MovesCursor.extend n tail p) =
        .ok (d.lowered n) (MovesCursor.extend n tail q) := by
    obtain ⟨other, result⟩ := started result
    have more : p.cursor.ahead ≠ [] := List.ne_nil_of_length_pos (Nat.zero_lt_of_lt
      (inner.takes (s := p) (t := q) scanned result))
    rw [topLevel_eq, Progress.token_extend more, if_neg other]
    exact inner.close (s := p) (t := q) scanned result
  exact {
    onward := fun scanned result => inner.onward scanned (started result).2
    takes := fun scanned result => inner.takes scanned (started result).2
    carry := fun scanned result _ => close scanned result
    close := close }

private theorem ends_of_suffix {c d : Cursor} (suffix : d.placed <:+ c.placed)
    (ends : ∀ t ∈ c.placed.dropLast, t.token ≠ .eof) : ∀ t ∈ d.placed.dropLast, t.token ≠ .eof := by
  obtain ⟨consumed, split⟩ := suffix
  rw [← split, List.dropLast_append_of_ne_nil (by simp [Cursor.placed])] at ends
  exact fun t ht => ends t (List.mem_append_right _ ht)

/-- **Reading goes on with what is behind.**  Where a text is read to its end, other tokens in the
place of the end are read as if the text were not there. -/
theorem run_extend (ht : tail.Scanned) (level : tail.depth = 0) {kind : DeclarationKind}
    {ds : List Declaration} {recorded : List SyntaxFault} {p : Progress}
    (scanned : p.cursor.Scanned) (ends : ∀ t ∈ p.cursor.placed.dropLast, t.token ≠ .eof)
    (depth : p.cursor.depth = 0) (h : run ⟨file, .failFast⟩ kind p = ⟨ds, recorded, none⟩) :
    run ⟨file, .failFast⟩ kind (MovesCursor.extend n tail p) =
      let behind := run ⟨file, .failFast⟩ kind ⟨tail, p.recorded⟩
      { behind with declarations := ds.map (Declaration.lowered n) ++ behind.declarations } := by
  induction size : p.size using Nat.strongRecOn generalizing p ds with
  | ind size ih =>
    subst size
    by_cases last : p.cursor.ahead = []
    · have eof : p.cursor.token = .eof := by
        simpa [Cursor.tokens, last] using scanned.ends
      rw [run_eof eof] at h
      cases h
      have there : MovesCursor.extend n tail p = ⟨tail, p.recorded⟩ := by
        have cursor : p.cursor.extend n tail = tail := by
          rw [Cursor.extend_last last, depth, ← level]
        exact congrArg (Progress.mk · p.recorded) cursor
      rw [there]
      rfl
    · have other : p.cursor.token ≠ .eof := ends _ (by
        rw [Cursor.placed, List.dropLast_cons_of_ne_nil last]
        exact List.mem_cons_self)
      have other' : (MovesCursor.extend n tail p).cursor.token ≠ .eof :=
        (Progress.token_extend last).trans_ne other
      cases first : topLevel ⟨file, .failFast⟩ kind p with
      | error fault q =>
        rw [run_stop other first rfl] at h
        cases h
      | ok d q =>
        have closes : Closes n tail (Declaration.lowered n) (topLevel ⟨file, .failFast⟩ kind)
          (topLevel ⟨file, .failFast⟩ kind) := topLevel_closes ht kind
        have less : q.size < p.size := closes.takes scanned first
        obtain ⟨suffix, depth'⟩ : q.cursor.placed <:+ p.cursor.placed ∧
          q.cursor.depth = p.cursor.depth := closes.onward scanned first
        have agrees : Agrees (topLevel ⟨file, .failFast⟩ kind)
          (topLevel ⟨file, .reporting 0⟩ kind) := agrees_topLevel kind
        cases behind : run ⟨file, .failFast⟩ kind q with
        | mk more recorded' stopped =>
          rw [run_cons other first less, behind] at h
          cases h
          have rest := ih q.size less (scanned.of_suffix suffix) (ends_of_suffix suffix ends)
            (depth'.trans depth) behind rfl
          rw [run_cons other' (closes.close scanned first) (by simp [less]), rest,
            (agrees.ok first).1]
          rfl

end Reader

end Compliance
