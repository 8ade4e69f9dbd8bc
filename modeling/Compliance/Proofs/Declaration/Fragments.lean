import Compliance.Proofs.Declaration.Extended
import Compliance.Proofs.Declaration.Origin
import Compliance.Source

/-!
# Directories of fragments

A directory is read as one text, that of its fragments with a line feed behind each.
No fragment can spoil the next one: whatever it ends with, a comment, a number or the
start of a longer sign, ends at the line feed, and its last brace closes all that it
opened.  So the directory declares what its fragments declare, in their order, and only
the lines are counted through.

## Main definitions

* `joinTexts` — texts with a line feed behind each.
* `linesBefore texts i` — how many lines stand in front of one of them.
* `Declaration.parse_append` — what two texts with a line feed between declare.
* `Declaration.parse_joinTexts` — what a directory declares.
-/

namespace Compliance

/-! ## Joined texts -/

/-- Texts with a line feed behind each. -/
def joinTexts (texts : List String) : String := String.join (texts.map (· ++ "\n"))

/-- How many line feeds stand in front of a text where texts are joined. -/
def linesBefore (texts : List String) (i : Nat) : Nat :=
  (joinTexts (texts.take i)).toList.count '\n'

theorem joinFragments_eq (fragments : List (String × String)) :
    joinFragments fragments = joinTexts ((sortFragments fragments).map Prod.snd) := by
  rw [joinFragments, joinTexts, List.map_map]
  rfl

@[simp] theorem joinTexts_cons (text : String) (texts : List String) :
    joinTexts (text :: texts) = text ++ "\n" ++ joinTexts texts := by
  simp [joinTexts, String.join_cons]

@[simp] theorem linesBefore_zero (texts : List String) : linesBefore texts 0 = 0 := by
  simp [linesBefore, joinTexts]

theorem linesBefore_succ (text : String) (texts : List String) (i : Nat) :
    linesBefore (text :: texts) (i + 1) =
      linesBefore texts i + (text.toList.count '\n' + 1) := by
  simp only [linesBefore, List.take_succ_cons, joinTexts_cons, String.toList_append,
    List.count_append, Nat.add_comm (List.count '\n' text.toList + _)]
  rfl

/-! ## Joined tokens -/

@[simp] theorem Placed.lowered_zero (t : Placed) : t.lowered 0 = t := rfl

@[simp] theorem Cursor.depth_ofTokens (ts : List Placed) : (ofTokens ts).depth = 0 := by
  cases ts <;> rfl

theorem Cursor.placed_ofTokens {ts : List Placed} (h : ts ≠ []) : (ofTokens ts).placed = ts := by
  cases ts with
  | nil => exact absurd rfl h
  | cons => rfl

/-- Tokens in front of others, some lines further down. -/
theorem Cursor.ofTokens_extend {n : Nat} {tail : Cursor} (level : tail.depth = 0)
    (front : List Placed) (last : Placed) :
    (ofTokens (front ++ [last])).extend n tail =
      ofTokens (front.map (Placed.lowered n) ++ tail.placed) := by
  cases front with
  | nil =>
    cases tail
    simp_all [ofTokens, extend, placed]
  | cons t ts =>
    rw [extend_of_ne_nil (by simp [ofTokens])]
    simp [ofTokens]

namespace Declaration

variable {file text more : String} {kind : DeclarationKind} {ds es : List Declaration}

/-- What is declared has been read from the tokens of the text, up to their end. -/
theorem exists_of_parse (h : parse text file kind = .ok ds) : ∃ tokens recorded,
    Token.scan text = .ok tokens ∧
      readTokens ⟨file, .failFast⟩ kind tokens = ⟨ds, recorded, none⟩ := by
  rw [parse] at h
  cases scanned : Token.scan text with
  | error error => simp [scanned] at h
  | ok tokens =>
    rw [scanned] at h
    simp only at h
    split at h
    · next whole =>
      obtain rfl := Except.ok.inj h
      exact ⟨tokens, _, rfl, by rw [← whole]⟩
    · cases h

/-- In front of other tokens those of a text are read as before. -/
theorem readTokens_append {n : Nat} {tail : Cursor} (ht : tail.Scanned) (level : tail.depth = 0)
    {front : List Placed} {last : Placed} {recorded : List SyntaxFault}
    (scanned : Token.scan text = .ok (front ++ [last])) (ends : ∀ t ∈ front, t.token ≠ .eof)
    (h : readTokens ⟨file, .failFast⟩ kind (front ++ [last]) = ⟨ds, recorded, none⟩) :
    readTokens ⟨file, .failFast⟩ kind (front.map (Placed.lowered n) ++ tail.placed) =
      let behind := Reader.run ⟨file, .failFast⟩ kind ⟨tail, []⟩
      { behind with declarations := ds.map (lowered n) ++ behind.declarations } := by
  have placed : (Cursor.ofTokens (front ++ [last])).placed = front ++ [last] :=
    Cursor.placed_ofTokens (by simp)
  have start : (Cursor.ofTokens (front ++ [last])).Scanned :=
    Cursor.scanned_of_scan scanned (placed ▸ List.suffix_rfl)
  have ends' : ∀ t ∈ (Cursor.ofTokens (front ++ [last])).placed.dropLast, t.token ≠ .eof := by
    rwa [placed, List.dropLast_concat]
  rw [readTokens, ← Cursor.ofTokens_extend level front last]
  exact Reader.run_extend ht level start ends' (Cursor.depth_ofTokens _) h

/-- **Two texts with a line feed between declare what both declare.** -/
theorem parse_append (h : parse text file kind = .ok ds) (h' : parse more file kind = .ok es) :
    parse (text ++ "\n" ++ more) file kind =
      .ok (ds ++ es.map (lowered (text.toList.count '\n' + 1))) := by
  obtain ⟨tokens, recorded, scanned, read⟩ := exists_of_parse h
  obtain ⟨others, recorded', scanned', read'⟩ := exists_of_parse h'
  obtain ⟨front, last, rfl, ends, joined⟩ := Token.scan_joined scanned scanned'
  obtain ⟨front', last', rfl, ends', -⟩ := Token.scan_joined scanned' scanned'
  generalize text.toList.count '\n' + 1 = n at joined ⊢
  -- The tokens of the second text end with the end of both.
  let last : Cursor := ⟨last'.lowered n, [], 0⟩
  let tail := Cursor.ofTokens (front'.map (Placed.lowered n) ++ last.placed)
  have placed : tail.placed = (front' ++ [last']).map (Placed.lowered n) := by
    rw [Cursor.placed_ofTokens (by simp [Cursor.placed]), List.map_append]
    rfl
  have tail' : tail.Scanned := Cursor.scanned_of_scan joined (placed ▸ List.suffix_append ..)
  have end' : last.Scanned :=
    tail'.of_suffix (placed ▸ ⟨front'.map (Placed.lowered n), by simp [last, Cursor.placed]⟩)
  have eof : last'.token = .eof := by
    simpa using (Token.genuine_of_scan scanned').1
  have behind : Reader.run ⟨file, .failFast⟩ kind ⟨tail, []⟩ = ⟨es.map (lowered n), [], none⟩ := by
    have whole := readTokens_append (n := n) end' rfl scanned' ends' read'
    rw [Reader.run_eof (p := ⟨last, []⟩) eof] at whole
    simpa [readTokens] using whole
  have whole := readTokens_append (n := 0) tail' (Cursor.depth_ofTokens _) scanned ends read
  rw [placed, behind] at whole
  rw [List.map_id'' Placed.lowered_zero, List.map_id'' lowered_zero] at whole
  exact parse_eq_ok joined whole

/-- **A directory declares what its fragments declare.**  Texts that are read without a fault are
read without a fault where they are joined, and then declare the same in the same order; each
declaration, with all that is in it, has moved down by the lines in front of its text. -/
theorem parse_joinTexts {texts : List String} {dss : List (List Declaration)}
    (h : List.Forall₂ (fun text ds => parse text file kind = .ok ds) texts dss) :
    parse (joinTexts texts) file kind =
      .ok (dss.mapIdx fun i ds => ds.map (lowered (linesBefore texts i))).flatten ∧
    ∀ fragments, (sortFragments fragments).map Prod.snd = texts →
      joinFragments fragments = joinTexts texts := by
  refine ⟨?_, fun fragments sorted => by rw [joinFragments_eq, sorted]⟩
  induction h with
  | nil => exact parse_empty file kind
  | @cons text ds texts dss first _ ih =>
    have behind : (dss.mapIdx fun i ds => ds.map (lowered (linesBefore texts i))).map
        (·.map (lowered (text.toList.count '\n' + 1))) =
          dss.mapIdx fun i ds => ds.map (lowered (linesBefore (text :: texts) (i + 1))) := by
      simp [List.mapIdx_eq_zipIdx_map, linesBefore_succ]
    rw [joinTexts_cons, parse_append first ih, List.mapIdx_cons, List.flatten_cons,
      linesBefore_zero, List.map_id'' lowered_zero, List.map_flatten, behind]

/-- Two groups, the first with a comment behind it that no line feed ends. -/
theorem parse_joinTexts_comment : ∃ first second : List Declaration,
    parse "\n group a \x7b \x7d // the end" "fragments" .group = .ok first ∧
    parse "group b \x7b set c:d = 1 \x7d" "fragments" .group = .ok second ∧
    first.map (fun d => (d.name, d.origin.line)) = [("a", 2)] ∧
    second.map (fun d => (d.name, d.origin.line)) = [("b", 1)] ∧
    parse "\n group a \x7b \x7d // the end\ngroup b \x7b set c:d = 1 \x7d\n" "fragments" .group =
      .ok (first ++ second.map (lowered 2)) := by
  have read (text name : String) (line : Nat) (h : (parse text "fragments" .group).toOption.map
      (·.map fun d => (d.name, d.origin.line)) = some [(name, line)]) :
      ∃ ds, parse text "fragments" .group = .ok ds ∧
        ds.map (fun d => (d.name, d.origin.line)) = [(name, line)] := by
    cases parsed : parse text "fragments" .group with
    | error error => simp [parsed, Except.toOption] at h
    | ok ds => exact ⟨ds, rfl, by simpa [parsed, Except.toOption] using h⟩
  obtain ⟨first, read₁, names₁⟩ := read "\n group a \x7b \x7d // the end" "a" 2
    (by decide +kernel)
  obtain ⟨second, read₂, names₂⟩ := read "group b \x7b set c:d = 1 \x7d" "b" 1
    (by decide +kernel)
  have whole := (parse_joinTexts (.cons read₁ (.cons read₂ .nil))).1
  refine ⟨first, second, read₁, read₂, names₁, names₂, ?_⟩
  have lines : linesBefore ["\n group a \x7b \x7d // the end",
      "group b \x7b set c:d = 1 \x7d"] 1 = 2 := by decide +kernel
  simpa [lines, joinTexts, List.map_id'' lowered_zero] using whole

end Declaration

end Compliance
