import Compliance.Declaration.Parser
import Compliance.Declaration.Recovery

/-!
# From a source text to its declarations

A source text holds declarations of one kind, which its reader knows beforehand.
Both modes of reading are one function, `Reader.run`; they differ in what happens
at a fault.

## Main definitions

* `Reader.group`, `Reader.module`, `Reader.plan` — declarations with members.
* `Declaration.parse` — the declarations of a text, or its first fault.
* `Declaration.parseReporting` — the declarations that could be read, and the
  faults.
-/

namespace Compliance

open Declaration

/-- How a source text is read: under which name, and what happens at a fault. -/
structure Reader where
  file : String
  mode : Mode

namespace Reader

/-! ## Members -/

/-- A member of a declaration. -/
inductive Member where
  | setting (setting : Assignment)
  | inclusion (kind : DeclarationKind) (inclusion : Inclusion)
  | module (module : Module)
  | group (group : Group)
  | rule (rule : Rule)

def settings (members : List Member) : List Assignment :=
  members.filterMap fun | .setting s => some s | _ => none

/-- The references to files of one kind among members. -/
def inclusions (kind : DeclarationKind) (members : List Member) : List Inclusion :=
  members.filterMap fun | .inclusion k i => if k = kind then some i else none | _ => none

def modules (members : List Member) : List Module :=
  members.filterMap fun | .module m => some m | _ => none

def groups (members : List Member) : List Group :=
  members.filterMap fun | .group g => some g | _ => none

def rules (members : List Member) : List Rule :=
  members.filterMap fun | .rule r => some r | _ => none

/-- The words that start a member of a group. -/
def groupKeywords : List String := ["set", "use", "rule"]

/-- The words that start a member of a module. -/
def moduleKeywords : List String := ["set", "use", "module", "group", "rule"]

/-- The words that start a member of a plan. -/
def planKeywords : List String := ["set", "use", "module"]

section

open HasCursor Parsing

variable {σ : Type} [Resuming σ]

/-- A `set`. -/
def settingMember (reader : Reader) : Reading σ Member :=
  Member.setting <$> take (Parser.setting reader.file)

/-- A `use` of one of some kinds. -/
def inclusionMember (reader : Reader) (kinds : List DeclarationKind) : Reading σ Member :=
  (fun (kind, found) => Member.inclusion kind found) <$>
    take (Parser.inclusion reader.file kinds)

/-- A rule with at most `levels` levels of blocks. -/
def ruleMember (reader : Reader) (levels : Nat) : Reading σ Member :=
  Member.rule <$> Resuming.rule reader.file levels

def groupMember (reader : Reader) (levels : Nat) : Reading σ Member :=
  enter (.member .group) do
    match ← take Parser.token with
    | .word "set" => reader.settingMember
    | .word "use" => reader.inclusionMember [.rule]
    | .word "rule" => reader.ruleMember levels
    | _ => take (Parser.unexpected "'set', 'use' or 'rule'")

/-- A group with at most `levels` levels of blocks. -/
def group (reader : Reader) (levels : Nat) : Reading σ Group :=
  enter (.declaration .group) do
    let (name, origin) ← take (Parser.header reader.file .group)
    match levels with
    | 0 => take Parser.refuseBlock
    | below + 1 =>
      openBlock
      let members ← inside
        (Recovering.members reader.mode groupKeywords (reader.groupMember below))
      take Parser.closeBlock
      return {
        name, origin
        settings := settings members
        rules := rules members
        useRules := inclusions .rule members }

/-- A member of a module, modules inside it read by `inner`. -/
def moduleMember (reader : Reader) (levels : Nat) (inner : Reading σ Module) :
    Reading σ Member :=
  enter (.member .module) do
    match ← take Parser.token with
    | .word "set" => reader.settingMember
    | .word "use" => reader.inclusionMember [.module, .group, .rule]
    | .word "module" => Member.module <$> inner
    | .word "group" => Member.group <$> reader.group levels
    | .word "rule" => reader.ruleMember levels
    | _ => take (Parser.unexpected "'set', 'use', 'module', 'group' or 'rule'")

/-- A module with at most `levels` levels of blocks. -/
def module (reader : Reader) : Nat → Reading σ Module
  | 0 => enter (.declaration .module) do
    let _ ← take (Parser.header reader.file .module)
    take Parser.refuseBlock
  | below + 1 => enter (.declaration .module) do
    let (name, origin) ← take (Parser.header reader.file .module)
    openBlock
    let members ← inside (Recovering.members reader.mode moduleKeywords
      (reader.moduleMember below (reader.module below)))
    take Parser.closeBlock
    return {
      name, origin
      settings := settings members
      modules := modules members
      useModules := inclusions .module members
      groups := groups members
      useGroups := inclusions .group members
      rules := rules members
      useRules := inclusions .rule members }

def planMember (reader : Reader) (levels : Nat) : Reading σ Member :=
  enter (.member .plan) do
    match ← take Parser.token with
    | .word "set" => reader.settingMember
    | .word "use" => reader.inclusionMember [.module]
    | .word "module" => Member.module <$> reader.module levels
    | _ => take (Parser.unexpected "'set', 'use' or 'module'")

/-- A plan with at most `levels` levels of blocks. -/
def plan (reader : Reader) (levels : Nat) : Reading σ Plan :=
  enter (.declaration .plan) do
    let (name, origin) ← take (Parser.header reader.file .plan)
    match levels with
    | 0 => take Parser.refuseBlock
    | below + 1 =>
      openBlock
      let members ← inside
        (Recovering.members reader.mode planKeywords (reader.planMember below))
      take Parser.closeBlock
      return {
        name, origin
        settings := settings members
        modules := modules members
        useModules := inclusions .module members }

/-! ## Source texts -/

/-- The words that start a declaration. -/
def topKeywords : List String := DeclarationKind.all.map (·.keyword)

/-- What stands behind the keyword of a kind. -/
def declarationOf (reader : Reader) (kind : DeclarationKind) : Reading σ Declaration :=
  match kind with
  | .plan => Declaration.plan <$> reader.plan (Resuming.levels σ)
  | .module => Declaration.module <$> reader.module (Resuming.levels σ)
  | .group => Declaration.group <$> reader.group (Resuming.levels σ)
  | .rule => Declaration.rule <$> Resuming.rule reader.file (Resuming.levels σ)

def declaration (reader : Reader) (kind : DeclarationKind) : Reading σ Declaration :=
  enter (.declaration kind) do
    match Parser.keywordAmong? DeclarationKind.all (← take Parser.token) with
    | none => take (Parser.unexpected "'plan', 'module', 'group' or 'rule'")
    | some found =>
      if found ≠ kind then take (Parser.refuse (.wrongKind kind found))
      reader.declarationOf kind

/-- A declaration, or the fault of a brace that closes nothing, which is passed over. -/
def topLevel (reader : Reader) (kind : DeclarationKind) : Reading σ Declaration := do
  if (← take Parser.token) = .braceClose then take Parser.strayBrace
  else reader.declaration kind

/-- What was read: declarations, the faults recorded, and the one that stopped reading early. -/
structure Outcome where
  declarations : List Declaration
  recorded : List SyntaxFault
  stoppedBy : Option SyntaxFault

/-- The declarations up to the end of the text, and the state behind them.  Each round moves on;
one that did not would be the last. -/
def runFrom (reader : Reader) (kind : DeclarationKind) (s : σ) : Outcome × σ :=
  if (cursor s).token = .eof then (⟨[], Resuming.recorded s, none⟩, s)
  else
    match reader.topLevel kind s with
    | .ok found t =>
      if (cursor t).size < (cursor s).size then
        let (more, last) := reader.runFrom kind t
        ({ more with declarations := found :: more.declarations }, last)
      else (⟨[found], Resuming.recorded t, none⟩, t)
    | .error fault t =>
      match Resuming.recover reader.mode topKeywords 0 (cursor s).size fault t with
      | .ok _ u =>
        if (cursor u).size < (cursor s).size then reader.runFrom kind u
        else (⟨[], Resuming.recorded u, none⟩, u)
      | .error fault u => (⟨[], Resuming.recorded u, some fault⟩, u)
termination_by (cursor s).size

variable {reader : Reader} {kind : DeclarationKind} {s t u : σ} {d : Declaration}
  {fault stop : SyntaxFault}

theorem runFrom_eof (h : (cursor s).token = .eof) :
    reader.runFrom kind s = (⟨[], Resuming.recorded s, none⟩, s) := by
  rw [runFrom, if_pos h]

theorem runFrom_cons (continues : (cursor s).token ≠ .eof) (read : reader.topLevel kind s = .ok d t)
    (less : (cursor t).size < (cursor s).size) : reader.runFrom kind s =
      ({ (reader.runFrom kind t).1 with
        declarations := d :: (reader.runFrom kind t).1.declarations },
        (reader.runFrom kind t).2) := by
  rw [runFrom, if_neg continues, read]
  exact if_pos less

/-- A declaration that does not move on is the last. -/
theorem runFrom_last (continues : (cursor s).token ≠ .eof) (read : reader.topLevel kind s = .ok d t)
    (last : ¬ (cursor t).size < (cursor s).size) :
    reader.runFrom kind s = (⟨[d], Resuming.recorded t, none⟩, t) := by
  rw [runFrom, if_neg continues, read]
  exact if_neg last

theorem runFrom_stop (continues : (cursor s).token ≠ .eof)
    (read : reader.topLevel kind s = .error fault t)
    (stops : Resuming.recover reader.mode topKeywords 0 (cursor s).size fault t = .error stop u) :
    reader.runFrom kind s = (⟨[], Resuming.recorded u, some stop⟩, u) := by
  rw [runFrom, if_neg continues, read]
  simp only [stops]

theorem runFrom_recover (continues : (cursor s).token ≠ .eof)
    (read : reader.topLevel kind s = .error fault t)
    (recovers : Resuming.recover reader.mode topKeywords 0 (cursor s).size fault t = .ok () u)
    (less : (cursor u).size < (cursor s).size) :
    reader.runFrom kind s = reader.runFrom kind u := by
  rw [runFrom, if_neg continues, read]
  simp only [recovers, if_pos less]

theorem runFrom_recover_last (continues : (cursor s).token ≠ .eof)
    (read : reader.topLevel kind s = .error fault t)
    (recovers : Resuming.recover reader.mode topKeywords 0 (cursor s).size fault t = .ok () u)
    (last : ¬ (cursor u).size < (cursor s).size) :
    reader.runFrom kind s = (⟨[], Resuming.recorded u, none⟩, u) := by
  rw [runFrom, if_neg continues, read]
  simp only [recovers, if_neg last]

end

/-! ## Faults beside the cursor -/

/-- The declarations up to the end of the text. -/
def run (reader : Reader) (kind : DeclarationKind) (p : Progress) : Outcome :=
  (reader.runFrom kind p).1

section

variable {reader : Reader} {kind : DeclarationKind} {levels : Nat} {p q r : Progress}
  {d : Declaration} {fault stop : SyntaxFault}

theorem groupMember_rule (h : p.cursor.token = .word "rule") :
    reader.groupMember levels p = reader.ruleMember levels p := by
  have token : Parser.token.plain p = .ok p.cursor.token p := rfl
  rw [groupMember]
  change EStateM.bind Parser.token.plain _ p = _
  rw [EStateM.bind, token, h]
  rfl

theorem moduleMember_rule {inner : Recovering Module} (h : p.cursor.token = .word "rule") :
    reader.moduleMember levels inner p = reader.ruleMember levels p := by
  have token : Parser.token.plain p = .ok p.cursor.token p := rfl
  rw [moduleMember]
  change EStateM.bind Parser.token.plain _ p = _
  rw [EStateM.bind, token, h]
  rfl

/-- At the top of a text a closing brace is a fault. -/
theorem topLevel_eq (p : Progress) : reader.topLevel kind p =
    if p.cursor.token = .braceClose then
      .error ⟨p.cursor.current.position, .strayBrace⟩ { p with cursor := p.cursor.advance }
    else reader.declaration kind p := by
  have token : Parser.token.plain p = .ok p.cursor.token p := rfl
  rw [topLevel]
  change EStateM.bind Parser.token.plain _ p = _
  rw [EStateM.bind, token]
  dsimp only
  split <;> rfl

theorem topLevel_rule (h : p.cursor.token = .word "rule") : reader.topLevel .rule p =
    (Declaration.rule <$> Parser.plain (Parser.rule reader.file maxNesting)) p := by
  have found : Parser.keywordAmong? DeclarationKind.all p.cursor.token = some .rule := by
    rw [h]
    decide
  have token : Parser.token.plain p = .ok p.cursor.token p := rfl
  rw [topLevel_eq, if_neg (by simp [h]), declaration]
  change EStateM.bind Parser.token.plain _ p = _
  rw [EStateM.bind, token]
  simp only [found]
  rfl

theorem run_eof (h : p.cursor.token = .eof) : reader.run kind p = ⟨[], p.recorded, none⟩ :=
  congrArg Prod.fst (runFrom_eof h)

theorem run_cons (continues : p.cursor.token ≠ .eof) (read : reader.topLevel kind p = .ok d q)
    (less : q.size < p.size) : reader.run kind p =
      { reader.run kind q with declarations := d :: (reader.run kind q).declarations } :=
  congrArg Prod.fst (runFrom_cons continues read less)

theorem run_last (continues : p.cursor.token ≠ .eof) (read : reader.topLevel kind p = .ok d q)
    (last : ¬ q.size < p.size) : reader.run kind p = ⟨[d], q.recorded, none⟩ :=
  congrArg Prod.fst (runFrom_last continues read last)

theorem run_stop (continues : p.cursor.token ≠ .eof)
    (read : reader.topLevel kind p = .error fault q)
    (stops : Recovering.recover reader.mode topKeywords 0 p.size fault q = .error stop r) :
    reader.run kind p = ⟨[], r.recorded, some stop⟩ :=
  congrArg Prod.fst (runFrom_stop continues read stops)

theorem run_recover (continues : p.cursor.token ≠ .eof)
    (read : reader.topLevel kind p = .error fault q)
    (recovers : Recovering.recover reader.mode topKeywords 0 p.size fault q = .ok () r)
    (less : r.size < p.size) : reader.run kind p = reader.run kind r :=
  congrArg Prod.fst (runFrom_recover continues read recovers less)

theorem run_recover_last (continues : p.cursor.token ≠ .eof)
    (read : reader.topLevel kind p = .error fault q)
    (recovers : Recovering.recover reader.mode topKeywords 0 p.size fault q = .ok () r)
    (last : ¬ r.size < p.size) : reader.run kind p = ⟨[], r.recorded, none⟩ :=
  congrArg Prod.fst (runFrom_recover_last continues read recovers last)

end

end Reader

namespace Declaration

/-- What a reader makes of a text that has tokens. -/
def readTokens (reader : Reader) (kind : DeclarationKind) (tokens : List Placed) :
    Reader.Outcome :=
  reader.run kind ⟨Cursor.ofTokens tokens, []⟩

/-- The declarations of a text, which are all of one kind, or its first fault. -/
def parse (source file : String) (kind : DeclarationKind) :
    Except SyntaxError (List Declaration) :=
  match Token.scan source with
  | .error error => .error (error.inFile file)
  | .ok tokens =>
    let outcome := readTokens ⟨file, .failFast⟩ kind tokens
    match outcome.stoppedBy with
    | none => .ok outcome.declarations
    | some fault => .error (fault.inFile file)

/-- A text that is read to its end has the declarations on the way. -/
theorem parse_eq_ok {source file : String} {kind : DeclarationKind} {tokens : List Placed}
    {ds : List Declaration} {recorded : List SyntaxFault} (scanned : Token.scan source = .ok tokens)
    (h : readTokens ⟨file, .failFast⟩ kind tokens = ⟨ds, recorded, none⟩) :
    parse source file kind = .ok ds := by
  rw [parse]
  rw [scanned]
  simp only [h]

/-- A text that is not has the fault that stopped the reading. -/
theorem parse_eq_error {source file : String} {kind : DeclarationKind} {tokens : List Placed}
    {ds : List Declaration} {recorded : List SyntaxFault} {fault : SyntaxFault}
    (scanned : Token.scan source = .ok tokens)
    (h : readTokens ⟨file, .failFast⟩ kind tokens = ⟨ds, recorded, some fault⟩) :
    parse source file kind = .error (fault.inFile file) := by
  rw [parse]
  rw [scanned]
  simp only [h]

/-- The declarations of a text that could be read, and its faults up to a limit.  A lexical fault
leaves nothing to read. -/
def parseReporting (source file : String) (kind : DeclarationKind) (limit : Nat) :
    Except SyntaxError (List Declaration × List SyntaxError) :=
  match Token.scan source with
  | .error error => .error (error.inFile file)
  | .ok tokens =>
    let outcome := readTokens ⟨file, .upTo limit⟩ kind tokens
    .ok (outcome.declarations, outcome.recorded.map (·.inFile file))

end Declaration

end Compliance
