import Compliance.Proofs.Declaration.Congruent
import Compliance.Proofs.Declaration.Onward

/-!
# The two modes of reading

Up to the first fault both modes of reading do the same.  There the one stops,
while the other records the fault before anything else and never takes a record
back.  So the one finds no fault exactly where the other records none, and both
have the same declarations then.

## Main definitions

* `Recovering.Grows f` — what is recorded stays recorded.
* `Recovering.Agrees f g` — `g` does what `f` does up to the first fault, and records that.
* `Reader.run_agrees` — so do the two modes of reading a text.
* `Declaration.modes_agree` — the declarations and the first fault are the same in both.
-/

namespace Compliance

namespace Recovering

variable {α β : Type}

/-- Faults are recorded behind those recorded before. -/
def Grows (f : Recovering α) : Prop := ∀ p, p.recorded <+: (progress (f p)).recorded

/-- Up to the first fault two parts of reading do the same and record nothing.  The second either
stops at that fault as well, or it records it first. -/
def Agrees (f g : Recovering α) : Prop :=
  ∀ p, match f p with
    | .ok a q => q.recorded = p.recorded ∧ g p = .ok a q
    | .error fault q => q.recorded = p.recorded ∧
      (g p = .error fault q ∨ p.recorded ++ [fault] <+: (progress (g p)).recorded)

variable {f g : Recovering α}

namespace Agrees

theorem ok (h : Agrees f g) {p q : Progress} {a : α} (hf : f p = .ok a q) :
    q.recorded = p.recorded ∧ g p = .ok a q := by
  have agreed := h p
  rw [hf] at agreed
  exact agreed

theorem error (h : Agrees f g) {p q : Progress} {fault : SyntaxFault}
    (hf : f p = .error fault q) : q.recorded = p.recorded ∧
      (g p = .error fault q ∨ p.recorded ++ [fault] <+: (progress (g p)).recorded) := by
  have agreed := h p
  rw [hf] at agreed
  exact agreed

theorem grows (h : Agrees f g) : Grows g := by
  intro p
  cases hf : f p with
  | ok a q =>
    obtain ⟨same, hg⟩ := h.ok hf
    have unchanged : (progress (g p)).recorded = p.recorded := by rw [hg, ← same, progress]
    exact unchanged ▸ List.prefix_rfl
  | error fault q =>
    obtain ⟨same, hg | recorded⟩ := h.error hf
    · have unchanged : (progress (g p)).recorded = p.recorded := by rw [hg, ← same, progress]
      exact unchanged ▸ List.prefix_rfl
    · exact (List.prefix_append _ _).trans recorded

end Agrees

/-! ## Parts in sequence -/

theorem agrees_plain (parser : Parser α) : Agrees parser.plain parser.plain := by
  intro p
  rw [Parser.plain]
  cases parser p.cursor with
  | ok a c => exact ⟨rfl, rfl⟩
  | error fault c => exact ⟨rfl, Or.inl rfl⟩

theorem recorded_bind {k : α → Recovering β} (hk : ∀ a, Grows (k a)) (p : Progress) :
    (progress (f p)).recorded <+: (progress ((f >>= k) p)).recorded :=
  (onward_records 0).bind hk (leads_records (f p))

/-- Parts that take back nothing take back nothing in sequence. -/
theorem Grows.bind {k : α → Recovering β} (h : Grows f) (hk : ∀ a, Grows (k a)) :
    Grows (f >>= k) :=
  fun p => (h p).trans (recorded_bind hk p)

/-- Parts that agree agree in sequence. -/
theorem Agrees.bind {k l : α → Recovering β} (h : Agrees f g) (hk : ∀ a, Agrees (k a) (l a)) :
    Agrees (f >>= k) (g >>= l) := by
  intro p
  cases hf : f p with
  | ok a q =>
    obtain ⟨same, hg⟩ := h.ok hf
    have behind := hk a q
    rw [bind_ok hf, bind_ok hg]
    rwa [same] at behind
  | error fault q =>
    obtain ⟨same, hg⟩ := h.error hf
    rw [bind_error hf]
    refine ⟨same, ?_⟩
    rcases hg with hg | recorded
    · exact Or.inl (bind_error hg)
    · exact Or.inr (recorded.trans (recorded_bind (fun a => (hk a).grows) p))

/-! ## Members -/

variable {keywords : List String} {base limit : Nat}

/-- Where faults are recorded, one is recorded unless the limit is reached. -/
theorem recover_or_recorded (checkpoint : Nat) (fault : SyntaxFault) (p : Progress) :
    recover (.reporting limit) keywords base checkpoint fault p = .error fault p ∨
      (progress (recover (.reporting limit) keywords base checkpoint fault p)).recorded =
        p.recorded ++ [fault] := by
  simp only [recover]
  split
  · exact Or.inl rfl
  · refine Or.inr ?_
    split <;> rfl

theorem grows_recover (checkpoint : Nat) (fault : SyntaxFault) :
    Grows (recover (.reporting limit) keywords base checkpoint fault) := by
  intro p
  rcases recover_or_recorded checkpoint fault p with stops | recorded
  · rw [stops]
    exact List.prefix_rfl
  · rw [recorded]
    exact List.prefix_append _ _

theorem grows_round (h : Grows g) : Grows (round (.reporting limit) keywords base g) :=
  fun p => (onward_records limit).round (h p)

/-- What has been recorded behind a faulty member stays recorded. -/
theorem recorded_behind {p q : Progress} {fault : SyntaxFault} (h : Grows g)
    (hg : g p = .error fault q) (continues : p.cursor.atBlockEnd = false) :
    (progress (recover (.reporting limit) keywords base p.size fault q)).recorded <+:
      (progress (membersAt (.reporting limit) keywords base g p)).recorded := by
  have leads : Leads Records (progress (recover (.reporting limit) keywords base p.size fault q))
      (round (.reporting limit) keywords base g p) := by
    rw [round_error hg]
    exact (leads_records _).map _
  rw [membersAt_eq_rounds]
  exact (onward_records limit).rounds_first (grows_round h) continues leads

/-- What the first member has recorded stays recorded. -/
theorem recorded_first {p : Progress} (h : Grows g) (continues : p.cursor.atBlockEnd = false) :
    (progress (g p)).recorded <+:
      (progress (membersAt (.reporting limit) keywords base g p)).recorded := by
  rw [membersAt_eq_rounds]
  exact (onward_records limit).rounds_first (grows_round h) continues
    ((onward_records limit).round (leads_records (g p)))

theorem grows_membersAt (h : Grows g) :
    Grows (membersAt (.reporting limit) keywords base g) := by
  rw [membersAt_eq_rounds]
  exact (onward_records limit).rounds (grows_round h)

/-- Members that agree with a fault in the first of them. -/
private theorem agrees_error (h : Agrees f g) {p q : Progress} {fault : SyntaxFault}
    (hf : f p = .error fault q) (continues : p.cursor.atBlockEnd = false) :
    membersAt (.reporting limit) keywords base g p = .error fault q ∨ p.recorded ++ [fault] <+:
      (progress (membersAt (.reporting limit) keywords base g p)).recorded := by
  obtain ⟨same, hg | recorded⟩ := h.error hf
  · rcases @recover_or_recorded keywords base limit p.size fault q with stops | recorded
    · exact Or.inl (membersAt_stop continues hg stops)
    · refine Or.inr ?_
      rw [← same, ← recorded]
      exact recorded_behind h.grows hg continues
  · exact Or.inr (recorded.trans (recorded_first h.grows continues))

/-- **Blocks of members that agree agree.** -/
theorem agrees_membersAt (h : Agrees f g) :
    Agrees (membersAt .failFast keywords base f)
      (membersAt (.reporting limit) keywords base g) := by
  intro p
  induction p using round_induction atBlockEnd_or .failFast keywords base f with
  | finish p ends =>
    rw [membersAt_end ends, membersAt_end ends]
    exact ⟨rfl, rfl⟩
  | more p a q continues hf less behind =>
    obtain ⟨same, hg⟩ := h.ok hf
    rw [membersAt_cons continues hf less, membersAt_cons continues hg less, EStateM.map,
      EStateM.map]
    rw [same] at behind
    cases hm : membersAt .failFast keywords base f q with
    | ok more r =>
      rw [hm] at behind
      rw [behind.2]
      exact ⟨behind.1, rfl⟩
    | error fault r =>
      rw [hm] at behind
      refine ⟨behind.1, ?_⟩
      rcases behind.2 with stops | recorded
      · exact Or.inl (by rw [stops])
      · refine Or.inr (recorded.trans ?_)
        cases membersAt (.reporting limit) keywords base g q <;> exact List.prefix_rfl
  | last p a q continues hf less =>
    obtain ⟨same, hg⟩ := h.ok hf
    rw [membersAt_last continues hf less, membersAt_last continues hg less]
    exact ⟨same, rfl⟩
  | past _ _ _ _ _ _ recovers => cases recovers
  | rest _ _ _ _ _ _ recovers => cases recovers
  | stop p fault q _ _ continues hf =>
    rw [membersAt_stop continues hf rfl]
    exact ⟨(h.error hf).1, agrees_error h hf continues⟩

end Recovering

namespace Reader

open Declaration Recovering

variable {file : String} {limit : Nat}

/-! ## Declarations -/

/-- **The two modes agree on whatever a reader is made of.** -/
theorem congruence_agrees : Congruence .failFast (.reporting limit) Agrees where
  plain := agrees_plain
  bind := Agrees.bind
  members _ h p := agrees_membersAt h p

theorem agrees_topLevel (kind : DeclarationKind) :
    Agrees (topLevel ⟨file, .failFast⟩ kind) (topLevel ⟨file, .reporting limit⟩ kind) :=
  congruence_agrees.topLevel kind

/-! ## Texts -/

theorem grows_roundTop (kind : DeclarationKind) :
    Grows (round (.reporting limit) topKeywords 0 (topLevel ⟨file, .reporting limit⟩ kind)) :=
  grows_round (agrees_topLevel kind).grows

/-- What is recorded behind a faulty declaration stays recorded. -/
theorem recorded_run_error {kind : DeclarationKind} {p q : Progress} {fault : SyntaxFault}
    (continues : p.cursor.token ≠ .eof)
    (hf : topLevel ⟨file, .reporting limit⟩ kind p = .error fault q) :
    (progress (recover (.reporting limit) topKeywords 0 p.size fault q)).recorded <+:
      ((Reader.mk file (.reporting limit)).run kind p).recorded := by
  have leads : Leads Records (progress (recover (.reporting limit) topKeywords 0 p.size fault q))
      (round (.reporting limit) topKeywords 0 (topLevel ⟨file, .reporting limit⟩ kind) p) := by
    rw [round_error hf]
    exact (leads_records _).map _
  rw [← (run_of_reading kind p).recorded]
  exact (onward_records limit).rounds_first (grows_roundTop kind) (decide_eq_false continues) leads

/-- What the first declaration has recorded stays recorded. -/
theorem recorded_run_first {kind : DeclarationKind} {p : Progress}
    (continues : p.cursor.token ≠ .eof) :
    (progress (topLevel ⟨file, .reporting limit⟩ kind p)).recorded <+:
      ((Reader.mk file (.reporting limit)).run kind p).recorded := by
  rw [← (run_of_reading kind p).recorded]
  exact (onward_records limit).rounds_first (grows_roundTop kind) (decide_eq_false continues)
    ((onward_records limit).round (leads_records _))

/-- Two outcomes of reading with some faults recorded before: without a fault both are the same,
and else the fault is the first to be recorded. -/
def Outcome.Agrees (recorded : List SyntaxFault) (o o' : Outcome) : Prop :=
  match o.stoppedBy with
  | none => o' = o ∧ o.recorded = recorded
  | some fault => recorded ++ [fault] <+: o'.recorded

/-- A first declaration in front of two outcomes. -/
private theorem Outcome.Agrees.cons {recorded : List SyntaxFault} {o o' : Outcome}
    (h : o.Agrees recorded o') (found : Declaration) :
    Outcome.Agrees recorded { o with declarations := found :: o.declarations }
      { o' with declarations := found :: o'.declarations } := by
  obtain ⟨declarations, listed, stoppedBy⟩ := o
  cases stoppedBy with
  | none =>
    obtain ⟨rfl, same⟩ := h
    exact ⟨rfl, same⟩
  | some fault => exact h

/-- **The two modes agree on a text**, if there is room to record a fault. -/
theorem run_agrees (kind : DeclarationKind) (p : Progress) (room : p.recorded.length < limit) :
    Outcome.Agrees p.recorded ((Reader.mk file .failFast).run kind p)
      ((Reader.mk file (.reporting limit)).run kind p) := by
  have agrees := @agrees_topLevel file limit kind
  induction p using round_induction eof_or .failFast topKeywords 0
    (topLevel ⟨file, .failFast⟩ kind) with
  | finish p ended =>
    rw [run_eof ended, run_eof ended]
    exact ⟨rfl, rfl⟩
  | more p found q continues hf less ih =>
    obtain ⟨same, hg⟩ := agrees.ok hf
    have behind := ih (by rw [same]; exact room)
    rw [run_cons continues hf less, run_cons continues hg less]
    rw [same] at behind
    exact behind.cons found
  | last p found q continues hf less =>
    obtain ⟨same, hg⟩ := agrees.ok hf
    rw [run_last continues hf less, run_last continues hg less]
    exact ⟨rfl, same⟩
  | past _ _ _ _ _ _ recovers => cases recovers
  | rest _ _ _ _ _ _ recovers => cases recovers
  | stop p fault q _ _ continues hf =>
    rw [run_stop continues hf rfl]
    obtain ⟨same, hg | recorded⟩ := agrees.error hf
    · have first :
          (progress (recover (.reporting limit) topKeywords 0 p.size fault q)).recorded =
            q.recorded ++ [fault] := recorded_recover p.size fault (by rw [same]; exact room)
      change p.recorded ++ [fault] <+: _
      rw [← same, ← first]
      exact recorded_run_error continues hg
    · exact recorded.trans (recorded_run_first continues)

end Reader

namespace Declaration

variable {source file : String} {kind : DeclarationKind} {limit : Nat}

/-- A text that has tokens is read in both modes: if the one finds no fault, the other records none
and has the same declarations, and else the fault is the first that the other records. -/
theorem parseReporting_of_scan {tokens : List Placed} (scanned : Token.scan source = .ok tokens) :
    match parse source file kind with
    | .ok ds => parseReporting source file kind limit = .ok (ds, [])
    | .error first =>
      ∃ ds more, parseReporting source file kind limit = .ok (ds, first :: more) := by
  have room : 0 < max limit 1 := Nat.lt_of_lt_of_le Nat.zero_lt_one (Nat.le_max_right _ _)
  have agrees : Reader.Outcome.Agrees [] (readTokens ⟨file, .failFast⟩ kind tokens)
      (readTokens ⟨file, .upTo limit⟩ kind tokens) :=
    Reader.run_agrees kind ⟨Cursor.ofTokens tokens, []⟩ room
  have reported : parseReporting source file kind limit =
      .ok ((readTokens ⟨file, .upTo limit⟩ kind tokens).declarations,
        (readTokens ⟨file, .upTo limit⟩ kind tokens).recorded.map (·.inFile file)) := by
    rw [parseReporting, scanned]
  cases ho : readTokens ⟨file, .failFast⟩ kind tokens with
  | mk declarations recorded stoppedBy =>
    rw [ho] at agrees
    cases stoppedBy with
    | none =>
      obtain ⟨same, rfl⟩ := agrees
      rw [parse_eq_ok scanned ho, reported, same]
      rfl
    | some fault =>
      have first : [] ++ [fault] <+: (readTokens ⟨file, .upTo limit⟩ kind tokens).recorded := agrees
      obtain ⟨more, recorded'⟩ := first
      rw [parse_eq_error scanned ho, reported, ← recorded']
      exact ⟨_, more.map (·.inFile file), rfl⟩

/-- A text without tokens has the same fault in both modes. -/
theorem parse_of_scan_error {error : LexicalError} (h : Token.scan source = .error error) :
    parse source file kind = .error (error.inFile file) ∧
      parseReporting source file kind limit = .error (error.inFile file) := by
  constructor
  · rw [parse, h]
  · rw [parseReporting, h]

/-- A text in which no fault is recorded is read without one, as the same declarations. -/
theorem parse_of_parseReporting {ds : List Declaration}
    (h : parseReporting source file kind limit = .ok (ds, [])) :
    parse source file kind = .ok ds := by
  cases scanned : Token.scan source with
  | error error =>
    rw [(parse_of_scan_error scanned).2] at h
    cases h
  | ok tokens =>
    have agrees := @parseReporting_of_scan source file kind limit tokens scanned
    cases read : parse source file kind with
    | ok ds' =>
      rw [read, h] at agrees
      cases agrees
      rfl
    | error first =>
      rw [read, h] at agrees
      obtain ⟨_, _, differ⟩ := agrees
      cases differ

/-- **The two modes of reading agree.**  A lexical fault is the answer in both modes.  A text that
has tokens and is read without a fault is read as the same declarations where faults are recorded,
and none is; the fault at which reading stops is the first that is recorded.  So no fault is
recorded exactly where reading does not stop. -/
theorem modes_agree (source file : String) (kind : DeclarationKind) (limit : Nat) :
    (match Token.scan source with
      | .error error =>
        parse source file kind = .error (error.inFile file) ∧
          parseReporting source file kind limit = .error (error.inFile file)
      | .ok _ =>
        match parse source file kind with
        | .ok ds => parseReporting source file kind limit = .ok (ds, [])
        | .error first =>
          ∃ ds more, parseReporting source file kind limit = .ok (ds, first :: more)) ∧
    ∀ ds, parseReporting source file kind limit = .ok (ds, []) ↔
      parse source file kind = .ok ds := by
  constructor
  · cases scanned : Token.scan source with
    | error error => exact parse_of_scan_error scanned
    | ok tokens => exact parseReporting_of_scan scanned
  · refine fun ds => ⟨parse_of_parseReporting, fun read => ?_⟩
    cases scanned : Token.scan source with
    | error error =>
      rw [(@parse_of_scan_error source file kind limit error scanned).1] at read
      cases read
    | ok tokens =>
      have agrees := @parseReporting_of_scan source file kind limit tokens scanned
      rwa [read] at agrees

end Declaration

end Compliance
