import Compliance.Proofs.Predicate.Tokens
import Compliance.Statement

/-!
# The tokens of statements

Statements are written one behind the other.  Between two of them there are
blanks and possibly the word `and`; the text of a block has the word everywhere,
while a text that is written by hand may have it or not.

## Main definitions

* `Statement.Writable` — the names are not empty, and all values have literals.
* `Statement.height` — how many levels of blocks a statement has.
* `Statement.tokens` — what the text of a statement is made of.
* `Statement.Joined ss text` — `text` is the texts of `ss` with joints between them.
* `Statement.Row ss tokens` — the tokens of such a text.
* `Statement.Joined.spells` — the one spells the other.
-/

namespace Compliance

open Text

namespace Statement

mutual

/-- The names in a statement are not empty, and all values in it have literals. -/
def Writable : Statement → Prop
  | .property name predicate => name ≠ "" ∧ predicate.Writable
  | .entry name _ predicate => name ≠ "" ∧ predicate.Writable
  | .nested name children => name ≠ "" ∧ AllWritable children
  | .association name children => name ≠ "" ∧ AllWritable children

/-- All of some statements can be written. -/
def AllWritable : List Statement → Prop
  | [] => True
  | s :: more => s.Writable ∧ AllWritable more

end

mutual

/-- The number of levels of blocks in a statement.  An association without children has none. -/
def height : Statement → Nat
  | .property _ _ => 0
  | .entry _ _ _ => 0
  | .nested _ children => heightAll children + 1
  | .association _ [] => 0
  | .association _ (child :: more) => heightAll (child :: more) + 1

/-- The number of levels of blocks in the highest of some statements. -/
def heightAll : List Statement → Nat
  | [] => 0
  | s :: more => max s.height (heightAll more)

end

theorem heightAll_le_iff {ss : List Statement} {n : Nat} :
    heightAll ss ≤ n ↔ ∀ s ∈ ss, s.height ≤ n := by
  induction ss with
  | nil => simp [heightAll]
  | cons s more ih => rw [heightAll, Nat.max_le, ih, List.forall_mem_cons]

theorem exists_of_lt_heightAll {ss : List Statement} {n : Nat} (h : n < heightAll ss) :
    ∃ s ∈ ss, n < s.height := by
  induction ss with
  | nil => exact absurd h (Nat.not_lt_zero n)
  | cons s more ih =>
    rw [heightAll] at h
    rcases Nat.lt_or_ge n s.height with here | low
    · exact ⟨s, List.mem_cons_self, here⟩
    · obtain ⟨t, ht, high⟩ := ih (by omega)
      exact ⟨t, List.mem_cons_of_mem s ht, high⟩

/-! ## Tokens -/

/-- The token of a name. -/
def nameToken (name : String) : Token :=
  if isWord name && name != "and" then .word name else .string name

mutual

/-- The tokens of a statement. -/
def tokens : Statement → List Token
  | .property name predicate => nameToken name :: predicate.tokens
  | .entry name key predicate =>
    [nameToken name, .bracketOpen, .string key, .bracketClose] ++ predicate.tokens
  | .nested name children =>
    [nameToken name, .braceOpen] ++ blockTokens children ++ [.braceClose]
  | .association name [] => [.greater, nameToken name]
  | .association name (child :: more) =>
    [.greater, nameToken name, .braceOpen] ++ blockTokens (child :: more) ++ [.braceClose]

/-- The tokens of the statements in a block. -/
def blockTokens : List Statement → List Token
  | [] => []
  | s :: more => s.tokens ++ moreTokens more

/-- The tokens of the statements behind the first of a block, each with `and` in front. -/
def moreTokens : List Statement → List Token
  | [] => []
  | s :: more => .word "and" :: (s.tokens ++ moreTokens more)

end

/-- What stands between two statements: the word `and` or nothing. -/
def IsJoint (joint : List Token) : Prop := joint = [] ∨ joint = [.word "and"]

/-- The tokens of statements that each stand behind another one. -/
inductive Behind : List Statement → List Token → Prop
  | nil : Behind [] []
  | cons {joint : List Token} {s : Statement} {more : List Statement} {ts : List Token} :
    IsJoint joint → Behind more ts → Behind (s :: more) (joint ++ (s.tokens ++ ts))

/-- The tokens of statements in a row. -/
inductive Row : List Statement → List Token → Prop
  | nil : Row [] []
  | cons {s : Statement} {more : List Statement} {ts : List Token} :
    Behind more ts → Row (s :: more) (s.tokens ++ ts)

theorem behind_moreTokens (ss : List Statement) : Behind ss (moreTokens ss) := by
  induction ss with
  | nil => exact .nil
  | cons s more ih => exact .cons (Or.inr rfl) ih

theorem row_blockTokens (ss : List Statement) : Row ss (blockTokens ss) := by
  cases ss with
  | nil => exact .nil
  | cons s more => exact .cons (behind_moreTokens more)

/-! ## Spelling -/

theorem spells_name (name : String) : Spells Separate (nameText name).toList [nameToken name] := by
  rw [nameText, nameToken]
  split
  · next word =>
    rw [Bool.and_eq_true] at word
    exact spells_word word.1
  · exact (spells_quoted name).weaken fun _ _ => trivial

theorem spells_target (name : String) :
    Spells Separate (">" ++ nameText name).toList [.greater, nameToken name] := by
  have apart : ∀ rest, ((nameText name).toList ++ rest).head? ≠ some '=' := by
    intro rest
    rw [nameText]
    split
    · next word =>
      rw [Bool.and_eq_true, isWord] at word
      split at word
      · simp at word
      · next c cs hc =>
        rw [hc]
        rintro ⟨rfl⟩
        exact absurd word.1 (by simp [show isWordStart '=' = false by decide +kernel])
    · rw [quote, String.toList_ofList]
      simp
  have greater : Spells (fun rest => rest.head? ≠ some '=') ['>'] [.greater] := by
    refine spells_sign fun rest hr => ?_
    simp only [sign, List.nil_append, if_neg hr]
    rfl
  rw [String.toList_append]
  exact greater.append (spells_name name) fun rest _ => apart rest

private theorem spells_braceOpen : Spells Anything ['\x7b'] [.braceOpen] :=
  spells_sign fun _ _ => rfl

private theorem spells_braceClose : Spells Anything ['\x7d'] [.braceClose] :=
  spells_sign fun _ _ => rfl

theorem spells_block {front block : String} {ts us : List Token}
    (hf : Spells Separate front.toList ts) (hb : Spells Separate block.toList us) :
    Spells Separate (front ++ " \x7b" ++ block ++ " \x7d").toList
      (ts ++ [.braceOpen] ++ us ++ [.braceClose]) := by
  have written : (front ++ " \x7b" ++ block ++ " \x7d").toList =
      front.toList ++ ' ' :: (['\x7b'] ++ (block.toList ++ ' ' :: ['\x7d'])) := by
    simp only [String.toList_append, List.append_assoc]
    rfl
  have closed := hb.spaced spells_braceClose
  rw [written, List.append_assoc, List.append_assoc]
  exact (hf.spaced (spells_braceOpen.before closed)).weaken fun _ _ => trivial

/-- The text of a block begins with a blank, unless it is empty. -/
private theorem separate_blockText (s : Statement) (more : List Statement) (rest : List Char) :
    Separate ((blockText (s :: more)).toList ++ rest) := by
  cases more with
  | nil =>
    rw [blockText, String.toList_append]
    exact separate_of_isBlank _ rfl
  | cons next more =>
    simp only [blockText, String.toList_append, List.append_assoc]
    exact separate_of_isBlank _ rfl

mutual

/-- **A statement spells its tokens**, up to a separator. -/
theorem spells : ∀ s : Statement, s.Writable → Spells Separate s.text.toList s.tokens
  | .property name predicate, h => by
    rw [text, tokens, String.toList_append, String.toList_append, List.append_assoc]
    exact (spells_name name).spaced (Predicate.spells h.2)
  | .entry name key predicate, h => by
    have opening : Spells Anything ['['] [.bracketOpen] := spells_sign fun _ _ => rfl
    have closing : Spells Anything [']'] [.bracketClose] := spells_sign fun _ _ => rfl
    have blank : Spells Anything [' '] [] := spells_blanks rfl
    have behind := opening.before ((spells_quoted key).before
      (closing.before (blank.before (Predicate.spells h.2))))
    have written : (entry name key predicate).text.toList = (nameText name).toList ++
        (['['] ++ ((quote key).toList ++ ([']'] ++ ([' '] ++ predicate.text.toList)))) := by
      simp only [text, String.toList_append, List.append_assoc]
      rfl
    rw [written]
    exact (spells_name name).append behind fun rest _ => separate_cons _ rfl
  | .nested name children, h => by
    rw [text, tokens]
    exact spells_block (spells_name name) (spells_blockText children h.2)
  | .association name [], _ => by
    rw [text, tokens]
    exact spells_target name
  | .association name (child :: more), h => by
    rw [text, tokens]
    exact spells_block (spells_target name) (spells_blockText (child :: more) h.2)

theorem spells_blockText : ∀ ss : List Statement, AllWritable ss →
    Spells Separate (blockText ss).toList (blockTokens ss)
  | [], _ => .nil
  | [s], h => by
    have blank : Spells Anything [' '] [] := spells_blanks rfl
    rw [blockText, blockTokens, moreTokens, List.append_nil, String.toList_append]
    exact blank.before (spells s h.1)
  | s :: next :: more, h => by
    have blank : Spells Anything [' '] [] := spells_blanks rfl
    have wordAnd : Spells Separate "and".toList [.word "and"] := spells_word (by decide +kernel)
    have behind := wordAnd.append (spells_blockText (next :: more) h.2) fun rest _ =>
      separate_blockText next more rest
    have written : (blockText (s :: next :: more)).toList =
        [' '] ++ (s.text.toList ++ ' ' :: ("and".toList ++ (blockText (next :: more)).toList)) := by
      simp only [blockText, String.toList_append, List.append_assoc]
      rfl
    rw [written]
    exact blank.before ((spells s h.1).spaced behind)

end

/-! ## Texts of statements -/

/-- What may separate two statements: blanks, and the word `and` between blanks. -/
def IsSeparation (sep : String) : Prop :=
  (sep ≠ "" ∧ sep.toList.all isBlank = true) ∨
    ∃ before after : String, (before ≠ "" ∧ before.toList.all isBlank = true) ∧
      (after ≠ "" ∧ after.toList.all isBlank = true) ∧ sep = before ++ "and" ++ after

/-- A text is the texts of some statements in order, with separations between. -/
inductive Joined : List Statement → String → Prop
  | nil : Joined [] ""
  | one (s : Statement) : Joined [s] s.text
  | cons (s : Statement) {sep text : String} {next : Statement} {more : List Statement} :
    IsSeparation sep → Joined (next :: more) text →
      Joined (s :: next :: more) (s.text ++ sep ++ text)

private theorem separate_blanks {blanks : String}
    (h : blanks ≠ "" ∧ blanks.toList.all isBlank = true) (rest : List Char) :
    Separate (blanks.toList ++ rest) := by
  obtain ⟨nonempty, every⟩ := h
  cases hc : blanks.toList with
  | nil => exact absurd (String.toList_eq_nil_iff.mp hc) nonempty
  | cons c cs =>
    rw [hc, List.all_cons, Bool.and_eq_true] at every
    exact separate_of_isBlank _ every.1

/-- A separation is a joint between what it separates. -/
private theorem spells_separation {front sep : String} {cs : List Char} {ts us : List Token}
    (h : IsSeparation sep) (hf : Spells Separate front.toList ts) (hb : Spells Separate cs us) :
    ∃ joint, IsJoint joint ∧
      Spells Separate (front.toList ++ (sep.toList ++ cs)) (ts ++ (joint ++ us)) := by
  obtain blanks | ⟨before, after, hbefore, hafter, rfl⟩ := h
  · refine ⟨[], Or.inl rfl, hf.append ((spells_blanks blanks.2).before hb) fun rest _ => ?_⟩
    rw [List.append_assoc]
    exact separate_blanks blanks _
  · have wordAnd : Spells Separate "and".toList [.word "and"] := spells_word (by decide +kernel)
    have behind : Spells Separate ("and".toList ++ (after.toList ++ cs)) ([.word "and"] ++ us) := by
      refine wordAnd.append ((spells_blanks hafter.2).before hb) fun rest _ => ?_
      rw [List.append_assoc]
      exact separate_blanks hafter _
    refine ⟨[.word "and"], Or.inr rfl, ?_⟩
    rw [String.toList_append, String.toList_append, List.append_assoc, List.append_assoc]
    refine hf.append ((spells_blanks hbefore.2).before behind) fun rest _ => ?_
    rw [List.append_assoc]
    exact separate_blanks hbefore _

/-- **Joined statements spell the tokens of a row.** -/
theorem Joined.spells {ss : List Statement} {text : String} (h : Joined ss text)
    (writable : AllWritable ss) : ∃ ts, Row ss ts ∧ Spells Separate text.toList ts := by
  induction h with
  | nil => exact ⟨[], .nil, .nil⟩
  | one s =>
    refine ⟨s.tokens ++ [], .cons .nil, ?_⟩
    rw [List.append_nil]
    exact s.spells writable.1
  | cons s separation _ ih =>
    obtain ⟨ts, row, behind⟩ := ih writable.2
    obtain ⟨joint, hj, whole⟩ := spells_separation separation (s.spells writable.1) behind
    cases row with
    | cons rest =>
      refine ⟨_, .cons (.cons hj rest), ?_⟩
      rw [String.toList_append, String.toList_append, List.append_assoc]
      exact whole

end Statement

end Compliance
