import Compliance.Declaration.Reader

/-!
# Counting the open blocks

The limit on blocks may be kept by the counter of the cursor alone: a block is refused where
the counter stands at the limit, and nothing else is known of the blocks around.  Here the
productions run on a state that also has a call stack, with room for some number of blocks.
Where a production is entered it is written down what the counter says and how many blocks are
open on the call stack.

## Main definitions

* `Counting.Entry` — where a production is entered.
* `Counting.State`, `Counting` — the state of reading, and what moves it on.
* `Counting.openBlock`, `Counting.inside` — the limit, kept by the counter; the call stack.
* `Counting.run` — what is read of a text, and what is entered on the way.
-/

namespace Compliance

namespace Counting

/-- Where a production is entered: what the counter says, and how many blocks are open on the call
stack. -/
structure Entry where
  production : Production
  counter : Nat
  opened : Nat

/-- The counter is right, and within the limit. -/
def Entry.Right (e : Entry) : Prop := e.counter = e.opened ∧ e.counter ≤ maxNesting

/-- How far a text is read, on a call stack with room for so many blocks. -/
structure State (room : Nat) where
  progress : Progress
  /-- How many blocks are open on the call stack. -/
  opened : Nat
  /-- What has been entered, in order. -/
  entries : List Entry

/-- Reading starts with no block open. -/
def State.start (room : Nat) (tokens : List Placed) : State room :=
  ⟨⟨Cursor.ofTokens tokens, []⟩, 0, []⟩

end Counting

/-- Reading that writes down what it enters. -/
abbrev Counting (room : Nat) (α : Type) := Reading (Counting.State room) α

namespace Counting

variable {room : Nat} {α : Type}

/-- Reading that enters nothing. -/
def lift (f : Recovering α) : Counting room α := fun s =>
  match f s.progress with
  | .ok a p => .ok a { s with progress := p }
  | .error fault p => .error fault { s with progress := p }

theorem lift_ok {f : Recovering α} {s : State room} {a : α} {p : Progress}
    (h : f s.progress = .ok a p) : lift f s = .ok a { s with progress := p } := by
  rw [lift, h]

theorem lift_error {f : Recovering α} {s : State room} {fault : SyntaxFault} {p : Progress}
    (h : f s.progress = .error fault p) : lift f s = .error fault { s with progress := p } := by
  rw [lift, h]

/-- A parser that enters nothing. -/
def read (parser : Parser α) : Counting room α := lift parser.plain

/-- Writes a production down. -/
def note (production : Production) : Counting room Unit := modify fun s =>
  { s with entries := s.entries ++ [⟨production, s.progress.cursor.depth, s.opened⟩] }

/-- The opening brace of a block, refused if the counter stands at the limit. -/
def openBlock : Counting room Unit := do
  let c ← read get
  if c.token = .braceOpen ∧ maxNesting ≤ c.depth then read (Parser.refuse .tooDeep)
  read Parser.openBlock

/-- Reading with one block more on the call stack, which is taken off behind it. -/
def inside (x : Counting room α) : Counting room α := fun s =>
  match x { s with opened := s.opened + 1 } with
  | .ok a t => .ok a { t with opened := s.opened }
  | .error fault t => .error fault { t with opened := s.opened }

instance : Parsing (State room) where
  cursor s := s.progress.cursor
  take := read
  enter production x := do
    note production
    x
  openBlock := openBlock
  inside := inside

instance : Resuming (State room) where
  recorded s := s.progress.recorded
  recover mode keywords base checkpoint fault :=
    lift (Recovering.recover mode keywords base checkpoint fault)
  rule := Parser.rule
  levels := room

@[simp] theorem cursor_state (s : State room) : HasCursor.cursor s = s.progress.cursor := rfl

@[simp] theorem take_state (parser : Parser α) :
    (Parsing.take parser : Counting room α) = read parser := rfl

@[simp] theorem enter_state (production : Production) (x : Counting room α) :
    Parsing.enter production x = note production >>= fun _ => x := rfl

@[simp] theorem openBlock_state : (Parsing.openBlock : Counting room Unit) = openBlock := rfl

@[simp] theorem inside_state (x : Counting room α) : Parsing.inside x = inside x := rfl

/-- What is read of a text, and what is entered on the way. -/
def run (reader : Reader) (room : Nat) (kind : DeclarationKind) (tokens : List Placed) :
    Reader.Outcome × List Entry :=
  let (outcome, s) := reader.runFrom kind (State.start room tokens)
  (outcome, s.entries)

end Counting

end Compliance
