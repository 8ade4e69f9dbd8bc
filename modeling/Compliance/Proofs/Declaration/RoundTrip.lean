import Compliance.Declaration.Reader
import Compliance.Proofs.Statement.Reading

/-!
# Statements survive writing and reading

Statements that are written one after the other into the block of a rule are read
from there as they were, down to the order of operands and siblings and to every
character of a name, whatever separates them.  Only the levels of blocks are
bounded: two of them are taken by the rule.

## Main definitions

* `Declaration.ruleHead name target`, `Declaration.asserting head body` — how a rule begins, and
  a declaration with a text in its block of assertions.
* `Declaration.ruleText body` — a rule with a text in its block.
* `Declaration.parse_ruleText` — what reading a rule with joined statements comes to.
-/

namespace Compliance

open Declaration Statement Text

namespace Parser

variable {follow : Token → Prop} {ss : List Statement} {ts : List Token} {file name : String}
  {levels : Nat}

/-! ## Rules -/

/-- Between the braces of a rule, parts go on until the closing one. -/
private theorem atBlockEnd_close {c : Cursor} {t : Token} {rest : List Token}
    (hc : c.tokens = t :: rest) (ht : t = .braceClose) : (!c.atBlockEnd) = false := by
  have current := Cursor.token_of_tokens hc
  simp [Cursor.atBlockEnd, current, ht]

private theorem atBlockEnd_assert {c : Cursor} {rest : List Token}
    (hc : c.tokens = .word "assert" :: rest) : (!c.atBlockEnd) = true := by
  have current := Cursor.token_of_tokens hc
  simp [Cursor.atBlockEnd, current]

theorem reads_reference (phrase first second third : String) :
    Reads (· ≠ .colon) (reference phrase)
      [.word first, .colon, .word second, .colon, .word third]
      (":".intercalate [first, second, third]) :=
  reads_words phrase first [second, third]

/-- The block of assertions of a rule that has no other part. -/
private theorem reads_ruleBody
    (h : Reads AnyToken (block levels) (.braceOpen :: ts) ss) :
    Reads follow (ruleBody file name levels)
      (.braceOpen :: (.word "assert" :: .braceOpen :: ts ++ [.braceClose]))
      ({ assertions := some ss }, ss) := by
  have part : Reads AnyToken (rulePart file name levels {}) (.word "assert" :: .braceOpen :: ts)
      { assertions := some ss } := by
    refine Reads.token (reads_advance.bind ?_)
    exact h.map fun ss => ({ assertions := some ss } : RuleParts)
  have parts : Reads (· = .braceClose)
      (foldWhile (fun c => !c.atBlockEnd) (rulePart file name levels) {})
      (.word "assert" :: .braceOpen :: ts) { assertions := some ss } :=
    part.foldWhile_once (by simp) (fun c rest hc => atBlockEnd_assert hc)
      fun c t rest hc ht => atBlockEnd_close hc ht
  refine reads_openBlock.bind (parts.bind_cons ?_ rfl)
  exact reads_closeBlock.bind Reads.pure

private theorem stops_ruleBody {cause : SyntaxCause}
    (h : Stops (block levels) (.braceOpen :: ts) cause) :
    Stops (ruleBody file name levels)
      (.braceOpen :: (.word "assert" :: .braceOpen :: ts ++ [.braceClose])) cause := by
  have part : Stops (rulePart file name levels {}) (.word "assert" :: .braceOpen :: ts) cause :=
    Stops.token (reads_advance.bind_stops h.bind)
  have parts : Stops (foldWhile (fun c => !c.atBlockEnd) (rulePart file name levels) {})
      (.word "assert" :: .braceOpen :: ts) cause :=
    part.foldWhile fun c rest hc => atBlockEnd_assert hc
  exact reads_openBlock.bind_stops parts.bind.append

/-- The keyword and name of a declaration, and where it starts. -/
private theorem header_ok {kind : DeclarationKind} {c : Cursor} {next : Token} {rest : List Token}
    (hn : name ≠ "") (hc : c.tokens = [.word kind.keyword, nameToken name] ++ next :: rest) :
    ∃ d, header file kind c = .ok (name, ⟨file, c.current.position.line⟩) d ∧
      d.tokens = next :: rest := by
  have behind : Reads AnyToken (do
      expectWord kind.keyword
      let name ← nameOf ("a " ++ kind.keyword ++ " name")
      return (name, (⟨file, c.current.position.line⟩ : Origin)))
      [.word kind.keyword, nameToken name] (name, ⟨file, c.current.position.line⟩) :=
    Reads.expect ((reads_nameOf _ hn).map fun name => (name, _))
  exact behind c next rest hc trivial

/-- What follows the name of a rule about the resources of a type. -/
private def restTokens (provider group type : String) (ts : List Token) : List Token :=
  .word "on" :: ([.word provider, .colon, .word group, .colon, .word type] ++
    .braceOpen :: (.word "assert" :: .braceOpen :: ts ++ [.braceClose]))

/-- The tokens of a rule with a name about the resources of a type. -/
def ruleTokens (name provider group type : String) (ts : List Token) : List Token :=
  [.word "rule", nameToken name] ++ restTokens provider group type ts

theorem ruleTokens_block (name provider group type : String) (ts : List Token) :
    ruleTokens name provider group type (ts ++ [.braceClose]) =
      [.word "rule", nameToken name] ++
        .word "on" :: [.word provider, .colon, .word group, .colon, .word type] ++
        [.braceOpen] ++ ([.word "assert"] ++ [.braceOpen] ++ ts ++ [.braceClose]) ++
        [.braceClose] := by
  simp only [ruleTokens, restTokens, List.nil_append, List.cons_append, List.append_assoc]

/-- A rule behind its keyword and name. -/
private def ruleRest (file : String) (levels : Nat) (start : String × Origin) : Parser Rule := do
  expectWord "on"
  let target ← reference "a resource type"
  let (parts, assertions) ← match levels with
    | 0 => refuseBlock
    | below + 1 => ruleBody file start.1 below
  return {
    name := start.1, target, assertions, origin := start.2
    settings := parts.settings.reverse
    conditions := parts.conditions.getD [] }

private theorem rule_eq : rule file levels = header file .rule >>= ruleRest file levels := rfl

/-- A rule with a block of assertions is read, if the block is. -/
theorem rule_ok {provider group type : String} {c : Cursor} {next : Token}
    {rest : List Token} (hn : name ≠ "") (h : Reads AnyToken (block levels) (.braceOpen :: ts) ss)
    (hc : c.tokens = ruleTokens name provider group type ts ++ next :: rest) :
    ∃ d, rule file (levels + 1) c = .ok
      { name, target := ":".intercalate [provider, group, type], settings := [], conditions := []
        assertions := ss, origin := ⟨file, c.current.position.line⟩ } d ∧
      d.tokens = next :: rest := by
  rw [ruleTokens, List.append_assoc] at hc
  obtain ⟨d, hd, hdt⟩ := @header_ok file name .rule c _ _ hn hc
  have behind : Reads AnyToken (ruleRest file (levels + 1) (name, ⟨file, c.current.position.line⟩))
      (restTokens provider group type ts)
      { name, target := ":".intercalate [provider, group, type], settings := [], conditions := []
        assertions := ss, origin := ⟨file, c.current.position.line⟩ } := by
    refine Reads.expect ((reads_reference _ provider group type).bind_cons ?_ (by simp))
    exact (reads_ruleBody h).map _
  obtain ⟨e, he, het⟩ := behind d next rest hdt trivial
  exact ⟨e, by rw [rule_eq, bind_ok hd, he], het⟩

/-- A rule whose block of assertions stops the reading stops it, too. -/
private theorem rule_stops {provider group type : String} {cause : SyntaxCause} (hn : name ≠ "")
    (h : Stops (block levels) (.braceOpen :: ts) cause) :
    Stops (rule file (levels + 1)) (ruleTokens name provider group type ts) cause := by
  intro c next rest hc
  rw [ruleTokens, List.append_assoc] at hc
  obtain ⟨d, hd, hdt⟩ := @header_ok file name .rule c _ _ hn hc
  have behind : Stops (ruleRest file (levels + 1) (name, ⟨file, c.current.position.line⟩))
      (restTokens provider group type ts) cause := by
    refine (reads_expect (.word "on")).bind_stops
      ((reads_reference _ provider group type).bind_stops_of_fits ?_ (fits_of_head? rfl (by simp)))
    exact (stops_ruleBody h).bind
  obtain ⟨fault, e, he, same⟩ := behind d next rest hdt
  exact ⟨fault, e, by rw [rule_eq, bind_ok hd, he], same⟩

end Parser

namespace Reader

variable {reader : Reader} {p : Progress}

theorem run_rule {d : Cursor} {r : Declaration.Rule} (h : p.cursor.token = .word "rule")
    (read : Parser.rule reader.file maxNesting p.cursor = .ok r d) (ended : d.tokens = [.eof]) :
    reader.run .rule p = ⟨[.rule r], p.recorded, none⟩ := by
  have found : reader.topLevel .rule p = .ok (.rule r) { p with cursor := d } := by
    rw [topLevel_rule h]
    change EStateM.map Declaration.rule _ p = _
    rw [EStateM.map, Parser.plain, read]
  have continues : p.cursor.token ≠ .eof := by simp [h]
  have last := @run_eof reader .rule { p with cursor := d } (Cursor.token_of_tokens ended)
  by_cases less : d.size < p.cursor.size
  · rw [run_cons continues found less, last]
  · rw [run_last continues found less]

/-- Without recording, the fault of the first rule ends the reading. -/
private theorem run_stops {file : String} {d : Cursor} {fault : SyntaxFault}
    (h : p.cursor.token = .word "rule")
    (stops : Parser.rule file maxNesting p.cursor = .error fault d) :
    (Reader.mk file .failFast).run .rule p = ⟨[], p.recorded, some fault⟩ := by
  have found : (Reader.mk file .failFast).topLevel .rule p =
      .error fault { p with cursor := d } := by
    rw [topLevel_rule h]
    change EStateM.map Declaration.rule _ p = _
    rw [EStateM.map, Parser.plain, stops]
  exact run_stop (r := { p with cursor := d }) (by simp [h]) found rfl

end Reader

/-! ## Texts -/

namespace Declaration

/-- How a rule with a name begins that is about a target. -/
def ruleHead (name target : String) : String := "rule " ++ nameText name ++ " on " ++ target

/-- A declaration that has only a text in its block of assertions. -/
def asserting (head body : String) : String :=
  head ++ " \x7b assert \x7b " ++ body ++ " \x7d \x7d"

/-- A rule with a text in its block of assertions. -/
def ruleText (body : String) : String :=
  "rule r on a:b:c \x7b assert \x7b " ++ body ++ " \x7d \x7d"

theorem spells_ruleHead (name : String) {target : String} {follow : List Char → Prop}
    {ts : List Token} (h : Spells follow target.toList ts) :
    Spells follow (ruleHead name target).toList
      ([.word "rule", nameToken name] ++ .word "on" :: ts) := by
  have rule : Spells Separate "rule".toList [.word "rule"] := spells_word (by decide +kernel)
  have on : Spells Separate "on".toList [.word "on"] := spells_word (by decide +kernel)
  have written : (ruleHead name target).toList = "rule".toList ++ ' ' ::
      ((nameText name).toList ++ ' ' :: ("on".toList ++ ' ' :: target.toList)) := by
    simp [ruleHead]
  rw [written]
  exact rule.spaced ((spells_name name).spaced (on.spaced h))

theorem spells_asserting {head body : String} {ts us : List Token}
    (front : Spells Separate head.toList ts) (h : Spells Separate body.toList us) :
    Spells Separate (asserting head body).toList
      (ts ++ [.braceOpen] ++ ([.word "assert"] ++ [.braceOpen] ++ us ++ [.braceClose]) ++
        [.braceClose]) := by
  have blank : Spells Anything [' '] [] := spells_blanks rfl
  have wordAssert : Spells Separate " assert".toList [.word "assert"] :=
    blank.before (spells_word (by decide +kernel))
  have inner : Spells Separate (" " ++ body).toList us := by
    rw [String.toList_append]
    exact blank.before h
  have whole := spells_block front (spells_block wordAssert inner)
  have opening : " \x7b assert \x7b " = " \x7b" ++ " assert" ++ " \x7b" ++ " " := by
    decide +kernel
  have closing : " \x7d \x7d" = " \x7d" ++ " \x7d" := by decide +kernel
  rw [asserting, opening, closing]
  simpa only [String.append_assoc] using whole

/-- What a rule spells, if the text in its block does. -/
private theorem spells_ruleText {body : String} {ts : List Token}
    (h : Spells Separate body.toList ts) :
    Spells Separate (ruleText body).toList
      (Parser.ruleTokens "r" "a" "b" "c" (ts ++ [.braceClose])) := by
  have words : Spells (StopsAt isWordPart) (":".intercalate ["a", "b", "c"]).toList
      [.word "a", .colon, .word "b", .colon, .word "c"] :=
    spells_words (by decide +kernel) (by decide +kernel)
  have head := spells_ruleHead "r" (words.weaken fun _ => Separate.stopsAt)
  have written : ruleText body =
      asserting (ruleHead "r" (":".intercalate ["a", "b", "c"])) body := by
    have name : nameText "r" = "r" := by decide +kernel
    have front : "rule r on a:b:c \x7b assert \x7b " =
        ruleHead "r" (":".intercalate ["a", "b", "c"]) ++ " \x7b assert \x7b " := by
      rw [ruleHead, name]
      decide +kernel
    exact congrArg (fun head => head ++ body ++ " \x7d \x7d") front
  rw [written, Parser.ruleTokens_block]
  exact spells_asserting head h

/-- **A rule is read back with the statements in its block**, however they are joined, if their
blocks leave room for the two of the rule; else its nesting is found to be too deep. -/
theorem parse_ruleText {ss : List Statement} {body : String} (joined : Joined ss body)
    (writable : AllWritable ss) (file : String) :
    (heightAll ss ≤ 126 → ∃ line, parse (ruleText body) file .rule =
      .ok [.rule { name := "r", target := "a:b:c", settings := [], conditions := []
                   assertions := ss, origin := ⟨file, line⟩ }]) ∧
    (126 < heightAll ss → ∃ e, parse (ruleText body) file .rule = .error e ∧
      e.cause = .tooDeep) := by
  obtain ⟨ts, row, spelled⟩ := joined.spells writable
  obtain ⟨placed, scanned, tokens⟩ := Token.scan_of_spells (spells_ruleText spelled) separate_nil
  have start : (Cursor.ofTokens placed).tokens =
      Parser.ruleTokens "r" "a" "b" "c" (ts ++ [.braceClose]) ++ [.eof] := by
    rw [← tokens]
    cases placed with
    | nil => cases tokens
    | cons t more => rfl
  have first : (Cursor.ofTokens placed).token = .word "rule" := Cursor.token_of_tokens start
  have named : "r" ≠ "" := by decide
  have below := fun n s hs => Parser.handles_statements ss writable n s hs
  obtain ⟨reads, stops⟩ := @Parser.handles_block Parser.AnyToken 127 _ _ row below
  constructor
  · intro low
    obtain ⟨d, hd, ended⟩ := Parser.rule_ok named (reads (Nat.succ_le_succ low)) start
    have outcome : readTokens ⟨file, .failFast⟩ .rule placed = ⟨[.rule _], [], none⟩ :=
      Reader.run_rule first hd ended
    exact ⟨(Cursor.ofTokens placed).current.position.line, parse_eq_ok scanned outcome⟩
  · intro high
    obtain ⟨fault, d, hd, cause⟩ :=
      Parser.rule_stops named (stops (Nat.succ_lt_succ high)) _ _ _ start
    have outcome : readTokens ⟨file, .failFast⟩ .rule placed = ⟨[], [], some fault⟩ :=
      Reader.run_stops first hd
    exact ⟨fault.inFile file, parse_eq_error scanned outcome, cause⟩

/-- A name that is a keyword, in a line of its own in front of an association. -/
theorem parse_ruleText_lines : ∃ line,
    parse (ruleText "\"and\" is empty\n>target") "rules" .rule =
      .ok [.rule { name := "r", target := "a:b:c", settings := [], conditions := []
                   assertions := [.property "and" (.empty false), .association "target" []]
                   origin := ⟨"rules", line⟩ }] := by
  have separation : IsSeparation "\n" := Or.inl ⟨by decide, by decide⟩
  have joined := Joined.cons (.property "and" (.empty false)) separation
    (.one (.association "target" []))
  have written : (Statement.property "and" (.empty false)).text ++ "\n" ++
      (Statement.association "target" []).text = "\"and\" is empty\n>target" := by decide +kernel
  rw [written] at joined
  refine (parse_ruleText joined ⟨⟨by decide, trivial⟩, ⟨by decide, trivial⟩, trivial⟩ "rules").1 ?_
  decide

end Declaration

end Compliance
