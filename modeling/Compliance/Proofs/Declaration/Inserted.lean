import Compliance.Proofs.Declaration.Moved
import Compliance.Proofs.Token.Inserted
import Compliance.Proofs.Token.Scanned

/-!
# White space and comments between the tokens of a source text

A text with white space or a comment between two of its tokens has the same tokens, and
what is read depends on these alone.  So it declares the same, or fails in the same way:
declarations start in the lines of the same tokens, and faults show at the same tokens,
wherever these stand now.

## Main definitions

* `Token.numbered`, `Token.placeAt` — tokens by their numbers, and where they stand.
* `Declaration.parse_inserted` — what a text declares with a gap in a seam.
-/

namespace Compliance

/-! ## Tokens by number -/

namespace Token

/-- Tokens with their numbers in the place of lines. -/
def numbered (tokens : List Placed) : List Placed :=
  tokens.mapIdx fun n t => ⟨t.token, ⟨n, 0⟩⟩

/-- Where the token with a number stands; those with higher numbers than there are stand where the
last one does. -/
def placeAt (tokens : List Placed) (n : Nat) : Position :=
  (tokens.getD n (tokens.getLastD default)).position

/-- From the numbers of tokens to places for them. -/
def settle (places : Nat → Position) : Move where
  place p := places p.line
  line n := (places n).line
  line_place _ := rfl

theorem numbered_moved (tokens : List Placed) (move : Position → Position) :
    (numbered tokens).map (Placed.moved (settle fun n => move (placeAt tokens n))) =
      tokens.map fun t => ⟨t.token, move t.position⟩ := by
  refine List.ext_getElem (by simp [numbered]) fun n _ h => ?_
  have inside : n < tokens.length := by simpa using h
  simp [numbered, Placed.moved, settle, placeAt, inside]

end Token

theorem Cursor.ofTokens_moved (move : Move) {tokens : List Placed} (h : tokens ≠ []) :
    ofTokens (tokens.map (Placed.moved move)) = (ofTokens tokens).moved move := by
  cases tokens with
  | nil => exact absurd rfl h
  | cons => rfl

/-! ## Faults elsewhere -/

/-- An error that shows in a place that is pushed. -/
def SyntaxError.pushed (here there : Position) (e : SyntaxError) : SyntaxError :=
  { e with position := e.position.pushed here there }

namespace Declaration

variable {tokens : List Placed} {text file : String} {kind : DeclarationKind}

/-- Tokens are read by their numbers, and then all is settled where they stand. -/
theorem readTokens_moved (reader : Reader) (nonempty : tokens ≠ []) (move : Position → Position) :
    readTokens reader kind (tokens.map fun t => ⟨t.token, move t.position⟩) =
      (readTokens reader kind (Token.numbered tokens)).moved
        (Token.settle fun n => move (Token.placeAt tokens n)) := by
  have numbered : Token.numbered tokens ≠ [] := by simpa [Token.numbered] using nonempty
  rw [← Token.numbered_moved, readTokens, Cursor.ofTokens_moved _ numbered]
  exact reader.run_moved kind ⟨Cursor.ofTokens (Token.numbered tokens), []⟩

/-- What a text declares shows in the reading of its tokens by number. -/
theorem parse_of_numbered (move : Position → Position) (nonempty : tokens ≠ [])
    (scanned : Token.scan text = .ok (tokens.map fun t => ⟨t.token, move t.position⟩)) :
    parse text file kind =
      let outcome := readTokens ⟨file, .failFast⟩ kind (Token.numbered tokens)
      match outcome.stoppedBy with
      | none =>
        .ok (outcome.declarations.map (relined fun n => (move (Token.placeAt tokens n)).line))
      | some fault =>
        .error ⟨file, move (Token.placeAt tokens fault.position.line), fault.cause⟩ := by
  rw [parse, scanned]
  simp only [readTokens_moved _ nonempty, Reader.Outcome.moved]
  cases (readTokens ⟨file, .failFast⟩ kind (Token.numbered tokens)).stoppedBy <;> rfl

/-- What can be read of a text, with all its faults, depends on its tokens and lines only. -/
theorem parseReporting_of_numbered (move : Position → Position) (nonempty : tokens ≠ [])
    (scanned : Token.scan text = .ok (tokens.map fun t => ⟨t.token, move t.position⟩))
    (limit : Nat) :
    parseReporting text file kind limit =
      let outcome := readTokens ⟨file, .upTo limit⟩ kind (Token.numbered tokens)
      .ok (outcome.declarations.map (relined fun n => (move (Token.placeAt tokens n)).line),
        outcome.recorded.map fun fault =>
          ⟨file, move (Token.placeAt tokens fault.position.line), fault.cause⟩) := by
  rw [parseReporting, scanned]
  simp only [readTokens_moved _ nonempty, Reader.Outcome.moved, List.map_map]
  rfl

/-- **White space and comments between tokens change nothing but places.**

Take a text that has tokens, and a place at its start, directly in front of a token or directly
behind one, and insert white space there, a block comment or a comment with its line feed.  Only a
block comment of several lines may not be inserted at the end of a text that ends in a comment
itself.  Then the text has the same tokens: those in front of the place stay where they are, and
those behind move as the place does.  It declares the same, each line being that of the same token,
or fails for the same cause at the same token; and with all faults recorded, whatever the limit, the
same is declared and the same faults are recorded in the same order. -/
theorem parse_inserted {front back : List Char} {gap : Gap} (scanned : Token.scan text = .ok tokens)
    (seam : Token.Seam text tokens front back) (fits : gap.Fits front back) :
    let more := String.ofList (front ++ gap.chars ++ back)
    let here := Position.start.after front
    let there := Position.start.after (front ++ gap.chars)
    let lines := fun n => (Token.placeAt tokens n).line
    let lines' := fun n => ((Token.placeAt tokens n).pushed here there).line
    Token.scan more = .ok (tokens.map (Placed.pushed here there)) ∧
      ∀ file kind,
        ((∃ outline : List Declaration,
            parse text file kind = .ok (outline.map (relined lines)) ∧
            parse more file kind = .ok (outline.map (relined lines'))) ∨
          ∃ error, parse text file kind = .error error ∧
            parse more file kind = .error (error.pushed here there)) ∧
        ∀ limit, ∃ (outline : List Declaration) (errors : List SyntaxError),
          parseReporting text file kind limit = .ok (outline.map (relined lines), errors) ∧
          parseReporting more file kind limit =
            .ok (outline.map (relined lines'), errors.map (·.pushed here there)) := by
  intro more here there lines lines'
  have scanned' : Token.scan more = .ok (tokens.map (Placed.pushed here there)) :=
    Token.scan_inserted scanned seam fits
  have nonempty : tokens ≠ [] := by
    rintro rfl
    have ends := (Token.genuine_of_scan scanned).1
    simp at ends
  have still : Token.scan text = .ok (tokens.map fun t => ⟨t.token, id t.position⟩) := by
    rw [scanned]
    exact congrArg _ (List.map_id' tokens).symm
  refine ⟨scanned', fun file kind => ⟨?_, fun limit => ?_⟩⟩
  · rw [parse_of_numbered id nonempty still,
      parse_of_numbered (Position.pushed · here there) nonempty scanned']
    simp only
    cases (readTokens ⟨file, .failFast⟩ kind (Token.numbered tokens)).stoppedBy with
    | none => exact .inl ⟨_, rfl, rfl⟩
    | some fault => exact .inr ⟨_, rfl, rfl⟩
  · rw [parseReporting_of_numbered id nonempty still,
      parseReporting_of_numbered (Position.pushed · here there) nonempty scanned']
    refine ⟨_, _, rfl, ?_⟩
    rw [List.map_map]
    rfl

/-- Two groups in one line, and a comment of two lines between the brace and the word. -/
theorem parse_inserted_groups :
    let text := "group a\x7b\x7dgroup b\x7b\x7d"
    let front := "group a\x7b\x7d".toList
    let back := "group b\x7b\x7d".toList
    let gap : Gap := .block ['\n'] Gap.closed_lineFeed
    let named (ds : List Declaration) := ds.map fun d => (d.name, d.origin.line)
    ∃ tokens, Token.scan text = .ok tokens ∧ Token.Seam text tokens front back ∧
      gap.Fits front back ∧
      ∃ outline : List Declaration,
        parse text "top.cs" .group =
          .ok (outline.map (relined fun n => (Token.placeAt tokens n).line)) ∧
        parse (String.ofList (front ++ gap.chars ++ back)) "top.cs" .group =
          .ok (outline.map (relined fun n =>
            ((Token.placeAt tokens n).pushed ⟨1, 10⟩ ⟨2, 3⟩).line)) ∧
        named (outline.map (relined fun n => (Token.placeAt tokens n).line)) =
          [("a", 1), ("b", 1)] ∧
        named (outline.map (relined fun n =>
          ((Token.placeAt tokens n).pushed ⟨1, 10⟩ ⟨2, 3⟩).line)) = [("a", 1), ("b", 2)] := by
  intro text front back gap named
  let tokens : List Placed := [⟨.word "group", ⟨1, 1⟩⟩, ⟨.word "a", ⟨1, 7⟩⟩, ⟨.braceOpen, ⟨1, 8⟩⟩,
    ⟨.braceClose, ⟨1, 9⟩⟩, ⟨.word "group", ⟨1, 10⟩⟩, ⟨.word "b", ⟨1, 16⟩⟩, ⟨.braceOpen, ⟨1, 17⟩⟩,
    ⟨.braceClose, ⟨1, 18⟩⟩, ⟨.eof, ⟨1, 19⟩⟩]
  have scanned : Token.scan text = .ok tokens := by decide +kernel
  have seam : Token.Seam text tokens front back :=
    .inFront (t := ⟨.word "group", ⟨1, 10⟩⟩) (by decide) (by decide +kernel) (by decide +kernel)
  have fits : gap.Fits front back := fun empty => absurd empty (by decide +kernel)
  have read : ((parse text "top.cs" .group).toOption.map named,
      (parse (String.ofList (front ++ gap.chars ++ back)) "top.cs" .group).toOption.map named) =
        (some [("a", 1), ("b", 1)], some [("a", 1), ("b", 2)]) := by
    decide +kernel
  have here : Position.start.after front = ⟨1, 10⟩ := by decide +kernel
  have there : Position.start.after (front ++ gap.chars) = ⟨2, 3⟩ := by decide +kernel
  have whole := (parse_inserted scanned seam fits).2 "top.cs" .group
  rw [here, there] at whole
  obtain ⟨⟨outline, first, second⟩ | ⟨error, first, -⟩, -⟩ := whole
  · rw [first, second] at read
    obtain ⟨lines, lines'⟩ := Prod.mk.inj read
    exact ⟨tokens, scanned, seam, fits, outline, first, second, Option.some.inj lines,
      Option.some.inj lines'⟩
  · rw [first] at read
    cases (Prod.mk.inj read).1

/-- A text that is a comment without a line feed has one token, its end.  In front of that a block
comment of two lines cannot be inserted: it starts in the comment, and its second line is none. -/
theorem parse_not_inserted :
    let front := "// a".toList
    let gap : Gap := .block ['\n'] Gap.closed_lineFeed
    Token.scan "// a" = .ok [⟨.eof, ⟨1, 5⟩⟩] ∧
      Token.Seam "// a" [⟨.eof, ⟨1, 5⟩⟩] front [] ∧
      String.ofList (front ++ gap.chars ++ []) = "// a/*\n*/" ∧
      Token.scan "// a/*\n*/" = .error ⟨⟨2, 1⟩, .character '*'⟩ ∧
      parse "// a" "top.cs" .rule = .ok [] ∧
      (parse "// a/*\n*/" "top.cs" .rule).toOption.isNone = true := by
  intro front gap
  have scanned : Token.scan "// a" = .ok [⟨.eof, ⟨1, 5⟩⟩] := by decide +kernel
  refine ⟨scanned, .inFront (List.mem_singleton_self _) ?_ ?_, ?_, ?_, ?_, ?_⟩
  · decide +kernel
  · decide +kernel
  · decide +kernel
  · decide +kernel
  · exact parse_eq_ok scanned (Reader.run_eof rfl)
  · decide +kernel

end Declaration

end Compliance
