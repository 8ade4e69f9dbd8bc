import Compliance.Proofs.Declaration.RoundTrip
import Compliance.Proofs.Reference.Canonical
import Compliance.Proofs.Token.Taking
import Compliance.Resolution

/-!
# References written bare

A reference whose segments are words needs no quotes: behind `on` its words and colons
are taken together again, and what they are put together to is its text.  The rule is
therefore about the resources of the type that was written, wherever it stands and
whatever else it says.

## Main definitions

* `TypeRef.IsBare` — the segments are words.
* `Parser.ruleBehind` — what is read behind the target of a rule.
* `Parser.rule_of_takes` — a rule is read up to there as one about a bare target.
* `TypeRef.KeptBare` — written bare, a reference is the target that the rule resolves to.
* `references_canonical` — references, their texts and their bare forms identify the same thing.
-/

namespace Compliance

open Text Statement Declaration

/-! ## Words -/

theorem isSegment_of_isWord {w : String} (h : isWord w = true) : IsSegment w := by
  have parts : w ≠ "" ∧ w.toList.all isWordPart = true := by
    rw [isWord] at h
    split at h
    · cases h
    · next c cs hw =>
      rw [Bool.and_eq_true] at h
      refine ⟨?_, by rw [hw, List.all_cons, isWordPart_of_isWordStart h.1, h.2]; rfl⟩
      rintro rfl
      cases hw
  obtain ⟨nonempty, all⟩ := parts
  rw [List.all_eq_true] at all
  have stops {cs : List Char} (within : ∀ c ∈ cs, c ∈ w.toList) : StopsAt isBlank cs := by
    intro c hc
    rw [Bool.eq_false_iff]
    intro blank
    have part := all c (within c (List.mem_of_mem_head? hc))
    rw [(not_of_isBlank blank).1] at part
    cases part
  refine ⟨nonempty, ?_, fun colon => absurd (all _ colon) (by decide +kernel)⟩
  have kept := trim_of_ends (stops fun _ => id) (stops fun c => List.mem_reverse.mp)
  rwa [String.ofList_toList] at kept

namespace TypeRef

/-- All segments are words. -/
def IsBare (r : TypeRef) : Prop := ∀ part ∈ r.segments, isWord part = true

/-- The tokens of the text. -/
def tokens (r : TypeRef) : List Token :=
  [.word r.provider, .colon, .word r.group, .colon, .word r.name]

variable {r : TypeRef}

/-- The text of a bare reference has its words and colons for tokens. -/
theorem IsBare.spells (h : r.IsBare) : Spells (StopsAt isWordPart) r.text.toList r.tokens := by
  obtain ⟨first, more⟩ := List.forall_mem_cons.mp h
  rw [text_eq]
  exact spells_words first more

theorem IsBare.read?_text (h : r.IsBare) : read? r.text = some r := by
  rw [read?_eq_some, text_eq]
  exact segments?_join (by simp [segments]) fun part hp => isSegment_of_isWord (h part hp)

end TypeRef

/-! ## Reading -/

namespace Parser

variable {c d : Cursor} {file name target : String} {levels : Nat}

/-- The step of a repetition that has gone through some segments. -/
private theorem segments_of_takes {phrase : String} {more values : List String}
    (h : c.Takes (more.flatMap fun w => [.colon, .word w]) d) (ends : d.token ≠ .colon) :
    foldWhile (fun c => c.token = .colon) (fun values => do return (← segment phrase) :: values)
      values c = .ok (more.reverse ++ values) d := by
  induction more generalizing c values with
  | nil =>
    obtain rfl := Cursor.takes_nil.mp h
    exact foldWhile_end (decide_eq_false ends)
  | cons w more ih =>
    obtain ⟨colon, further, h⟩ := Cursor.takes_cons.mp h
    obtain ⟨word, further', h⟩ := Cursor.takes_cons.mp h
    have read : segment phrase c = .ok w c.advance.advance := by
      rw [segment, advance_bind, token_bind, word]
      rfl
    have less : c.advance.advance.size < c.size := by
      have positive : 0 < c.size := List.length_pos_iff.mpr further
      rw [Cursor.size_advance, Cursor.size_advance]
      omega
    have step : (do return (← segment phrase) :: values) c =
        .ok (w :: values) c.advance.advance := by
      rw [bind_ok read, pure_run]
    rw [foldWhile_cons (decide_eq_true colon) step less, ih h, List.reverse_cons, List.append_assoc]
    rfl

theorem reference_of_takes {phrase first : String} {more : List String}
    (h : c.Takes (.word first :: more.flatMap fun w => [.colon, .word w]) d)
    (ends : d.token ≠ .colon) : reference phrase c = .ok (":".intercalate (first :: more)) d := by
  obtain ⟨word, -, h⟩ := Cursor.takes_cons.mp h
  have repeated : repeatWhile (fun c => c.token = .colon) (segment phrase) c.advance =
      .ok more d := by
    rw [repeatWhile, bind_ok (segments_of_takes h ends), List.append_nil, List.reverse_reverse,
      pure_run]
  rw [reference, token_bind, word]
  simp only [advance_bind, bind_ok repeated, pure_run]

/-- A keyword and a name are taken together, and they say where a declaration starts. -/
theorem header_of_takes {kind : DeclarationKind} (hn : name ≠ "")
    (h : c.Takes [.word kind.keyword, nameToken name] d) :
    header file kind c = .ok (name, ⟨file, c.current.position.line⟩) d := by
  obtain ⟨keyword, -, h⟩ := Cursor.takes_cons.mp h
  obtain ⟨named, -, h⟩ := Cursor.takes_cons.mp h
  obtain rfl := Cursor.takes_nil.mp h
  have expected : expectWord kind.keyword c = .ok () c.advance :=
    expect_eq_ok.mpr ⟨keyword, rfl⟩
  have nonempty : name.isEmpty = false := by simpa using hn
  have behind (phrase : String) : (do
      if name.isEmpty then refuse (.emptyName phrase)
      advance
      return name : Parser String) c.advance = .ok name c.advance.advance := by
    simp only [nonempty, Bool.false_eq_true, if_false]
    rfl
  have read (phrase : String) : nameOf phrase c.advance = .ok name c.advance.advance := by
    rw [nameOf, token_bind, named]
    rcases nameToken_cases name with token | token
    · rw [token]
      exact behind phrase
    · rw [token]
      exact behind phrase
  change (expectWord kind.keyword >>= fun _ => nameOf ("a " ++ kind.keyword ++ " name") >>= _) c = _
  rw [bind_ok expected, bind_ok (read _)]
  rfl

/-- What is read behind the target of a rule. -/
def ruleBehind (file : String) (levels : Nat) (name : String) (origin : Origin)
    (target : String) : Parser Rule := do
  let (parts, assertions) ← match levels with
    | 0 => refuseBlock
    | below + 1 => ruleBody file name below
  return {
    name, target, assertions, origin
    settings := parts.settings.reverse
    conditions := parts.conditions.getD [] }

theorem target_of_ruleBehind {origin : Origin} {rule : Rule}
    (h : ruleBehind file levels name origin target c = .ok rule d) : rule.target = target := by
  cases levels with
  | zero =>
    obtain ⟨_, _, -, behind⟩ := bind_eq_ok.mp h
    rw [(pure_eq_ok.mp behind).1]
  | succ below =>
    obtain ⟨_, _, -, behind⟩ := bind_eq_ok.mp h
    rw [(pure_eq_ok.mp behind).1]

/-- **A bare target is the text of the reference**, whatever the rule says about it. -/
theorem rule_of_takes {r : TypeRef} (hn : name ≠ "")
    (h : c.Takes ([.word "rule", nameToken name] ++ .word "on" :: r.tokens) d)
    (ends : d.token ≠ .colon) : rule file levels c =
      ruleBehind file levels name ⟨file, c.current.position.line⟩ r.text d := by
  obtain ⟨c', first, h⟩ := Cursor.takes_append.mp h
  obtain ⟨on, -, h⟩ := Cursor.takes_cons.mp h
  have expected : expectWord "on" c' = .ok () c'.advance := expect_eq_ok.mpr ⟨on, rfl⟩
  have start : header file .rule c = .ok (name, ⟨file, c.current.position.line⟩) c' :=
    header_of_takes hn first
  have read : reference "a resource type" c'.advance = .ok r.text d := by
    rw [TypeRef.text_eq]
    exact reference_of_takes h ends
  have parts : rule file levels = header file .rule >>= fun named =>
      expectWord "on" >>= fun _ => reference "a resource type" >>=
        ruleBehind file levels named.1 named.2 := rfl
  rw [parts, bind_ok start]
  simp only [bind_ok expected, bind_ok read]

end Parser

/-! ## Resolution -/

/-- A rule about a text that denotes a reference resolves to one about the reference. -/
theorem Resolver.rule_of_read? (resolver : Resolver) (inherited : Settings) {d : Declaration.Rule}
    {r : TypeRef} (h : TypeRef.read? d.target = some r) (s : Resolving.State) :
    resolver.rule inherited d s = ([{
      name := d.name, target := r, settings := (resolver.settings inherited d.settings s).1
      conditions := d.conditions, assertions := d.assertions, origin := d.origin }],
      (resolver.settings inherited d.settings s).2) := by
  rw [Resolver.rule, h]
  rfl

/-- Resolved alone, a rule without settings of its own has those that are handed down. -/
theorem Resolver.resolve_of_read? (resolver : Resolver) (inherited : Settings)
    {d : Declaration.Rule} {r : TypeRef} (h : TypeRef.read? d.target = some r)
    (own : d.settings = []) : resolver.resolve inherited (.rule d) .idle = (⟨some (.rule {
      name := d.name, target := r, settings := inherited, conditions := d.conditions
      assertions := d.assertions, origin := d.origin }), []⟩, .idle) := by
  have alone := resolver.rule_of_read? inherited h .idle
  have found : resolver.resolve inherited (.rule d) .idle =
      (⟨(resolver.rule inherited d .idle).1.head?.map .rule,
        (resolver.rule inherited d .idle).2.issues⟩,
        { (resolver.rule inherited d .idle).2 with issues := [] }) := rfl
  rw [found, alone, own]
  rfl

namespace TypeRef

/-- Written bare behind the `on` of a rule, a reference is the target that the rule resolves to. -/
structure KeptBare (r : TypeRef) : Prop where
  /-- Wherever a text has the head of a rule about the reference, the rule goes on behind it, and
  what is read is about the text of the reference. -/
  read : ∀ (name : String) (rest : List Char) (p : Position) (next : Placed) (more : List Placed),
    name ≠ "" → StopsAt isWordPart rest →
    Token.scanFrom (p.after (ruleHead name r.text).toList) rest = .ok (next :: more) →
    next.token ≠ .colon → ∃ placed,
      Token.scanFrom p ((ruleHead name r.text).toList ++ rest) = .ok (placed ++ next :: more) ∧
      ∀ (file : String) (levels : Nat) (c : Cursor), c.current :: c.ahead = placed ++ next :: more →
        Parser.rule file levels c =
          Parser.ruleBehind file levels name ⟨file, c.current.position.line⟩ r.text
            ⟨next, more, c.depth⟩ ∧
        ∀ d e, Parser.rule file levels c = .ok d e → d.target = r.text
  /-- A rule about the text of the reference is one about the reference. -/
  resolved : ∀ (resolver : Resolver) (inherited : Settings) (d : Declaration.Rule)
    (s : Resolving.State), d.target = r.text → resolver.rule inherited d s = ([{
      name := d.name, target := r, settings := (resolver.settings inherited d.settings s).1
      conditions := d.conditions, assertions := d.assertions, origin := d.origin }],
      (resolver.settings inherited d.settings s).2)
  /-- A text that is a rule about the reference is read, and resolved. -/
  whole : ∀ (name body : String) (ss : List Statement) (file : String) (resolver : Resolver)
    (inherited : Settings), name ≠ "" → Joined ss body → AllWritable ss → heightAll ss ≤ 126 →
    ∃ d origin,
      Declaration.parse (asserting (ruleHead name r.text) body) file .rule = .ok [.rule d] ∧
      resolver.resolve inherited (.rule d) .idle = (⟨some (.rule {
        name, target := r, settings := inherited, conditions := [], assertions := ss
        origin }), []⟩, .idle)

/-- **A bare reference is the target that a rule resolves to.** -/
theorem IsBare.kept {r : TypeRef} (h : r.IsBare) : r.KeptBare where
  read name rest p next more hn stops scanned ends := by
    obtain ⟨placed, tokens, whole⟩ := spells_ruleHead name h.spells rest stops p
    rw [scanned] at whole
    refine ⟨placed, whole, fun file levels c hc => ?_⟩
    have taken : c.Takes ([.word "rule", nameToken name] ++ .word "on" :: r.tokens)
        ⟨next, more, c.depth⟩ := Cursor.takes_iff.mpr ⟨placed, hc, rfl, tokens.symm⟩
    have rule := @Parser.rule_of_takes c _ file name levels r hn taken ends
    exact ⟨rule, fun d e found => Parser.target_of_ruleBehind (rule.symm.trans found)⟩
  resolved resolver inherited _ s target :=
    resolver.rule_of_read? inherited (target ▸ h.read?_text) s
  whole name body ss file resolver inherited hn joined writable low := by
    obtain ⟨ts, row, spelled⟩ := joined.spells writable
    have head : Spells Separate (ruleHead name r.text).toList _ :=
      spells_ruleHead name (h.spells.weaken fun _ => Separate.stopsAt)
    obtain ⟨placed, scanned, tokens⟩ :=
      Token.scan_of_spells (spells_asserting head spelled) separate_nil
    have start : (Cursor.ofTokens placed).tokens =
        Parser.ruleTokens name r.provider r.group r.name (ts ++ [.braceClose]) ++ [.eof] := by
      rw [Parser.ruleTokens_block]
      cases placed with
      | nil => cases tokens
      | cons t more => exact tokens
    have below := fun n s hs => Parser.handles_statements ss writable n s hs
    obtain ⟨reads, -⟩ := @Parser.handles_block Parser.AnyToken 127 _ _ row below
    obtain ⟨d, hd, ended⟩ := Parser.rule_ok hn (reads (Nat.succ_le_succ low)) start
    have outcome : readTokens ⟨file, .failFast⟩ .rule placed = ⟨[.rule _], [], none⟩ :=
      Reader.run_rule (Cursor.token_of_tokens start) hd ended
    have found : read? (":".intercalate [r.provider, r.group, r.name]) = some r := by
      have back := h.read?_text
      rwa [text_eq] at back
    exact ⟨_, ⟨file, (Cursor.ofTokens placed).current.position.line⟩,
      parse_eq_ok scanned outcome, resolver.resolve_of_read? inherited found rfl⟩

end TypeRef

/-! ## Documents -/

/-- Among settings whose names are references, the text of a name leads to the setting that the
name leads to. -/
theorem Settings.lookup_text {text : String} {ref : SettingRef}
    (h : SettingRef.read? text = some ref) {entries : List Setting}
    (named : ∀ s ∈ entries, ∃ text, SettingRef.read? text = some s.ref) :
    (entries.map fun s => (s.ref.text, s.value.toJson)).lookup ref.text =
      (entries.find? (·.ref = ref)).map fun s => s.value.toJson := by
  induction entries with
  | nil => rfl
  | cons s more ih =>
    rw [List.forall_mem_cons] at named
    obtain ⟨⟨text', h'⟩, named⟩ := named
    have texts := SettingRef.canonical.text_inj _ _ _ _ h h'
    rw [List.map_cons, List.lookup_cons]
    by_cases same : ref = s.ref
    · rw [List.find?_cons_of_pos (by simp [same])]
      simp [same]
    · have differ : (ref.text == s.ref.text) = false := by
        rw [beq_eq_false_iff_ne]
        exact fun equal => same (texts.mpr equal)
      rw [List.find?_cons_of_neg (by simpa using Ne.symm same), differ]
      exact ih named

/-- **References are canonical.**  They are read from texts by their segments and are told apart by
their texts, bare ones are kept by the rules that are written about them, and the document of some
settings has the value of a setting at the text of its name. -/
theorem references_canonical :
    CanonicalText 3 TypeRef.read? TypeRef.text ∧ CanonicalText 2 SettingRef.read? SettingRef.text ∧
      (∀ r : TypeRef, r.IsBare → r.KeptBare) ∧
      ∀ settings : Settings,
        (∀ s ∈ settings.entries, ∃ text, SettingRef.read? text = some s.ref) →
        ∃ members, settings.toJson = .object members ∧
          ∀ text ref, SettingRef.read? text = some ref →
            members.lookup ref.text = (settings.get? ref).map Scalar.toJson := by
  refine ⟨TypeRef.canonical, SettingRef.canonical, fun _ => TypeRef.IsBare.kept, ?_⟩
  intro settings named
  refine ⟨_, rfl, fun text ref h => ?_⟩
  rw [Settings.lookup_text h named, Settings.get?, Option.map_map]
  rfl

end Compliance
