import Compliance.Proofs.Token.Joined
import Compliance.Proofs.Token.Taking

/-!
# Reading in front of more

Tokens may have others in the place of the last one, which is the end of their text.
What a parser makes of them is the same as long as it does not reach their end: only
there can it tell the difference.  A parser that ends with a closing brace may even
take all of them.

## Main definitions

* `Cursor.extend n tail c` — `c` some lines further down, with the tokens of `tail` behind.
* `MovesCursor` — states of reading whose cursor may be moved elsewhere.
* `Parser.within`, `Parser.braced` — a parser on the cursor of a state, and a block in braces.
* `Carries n tail f P Q` — in front of the end `P` does among its tokens what `Q` does when these
  are extended.
* `Closes n tail f P Q` — also at the end.
-/

namespace Compliance

/-! ## Cursors in front of more tokens -/

namespace Cursor

variable {n : Nat} {tail c d : Cursor} {ts : List Token}

/-- The current token and those ahead, where they stand. -/
def placed (c : Cursor) : List Placed := c.current :: c.ahead

/-- A cursor some lines further down, with other tokens in the place of its last. -/
def extend (n : Nat) (c tail : Cursor) : Cursor :=
  match c.ahead with
  | [] => { tail with depth := c.depth }
  | _ :: _ => {
      current := c.current.lowered n
      ahead := c.ahead.dropLast.map (Placed.lowered n) ++ tail.placed
      depth := c.depth }

theorem extend_last (h : c.ahead = []) : c.extend n tail = { tail with depth := c.depth } := by
  simp only [extend, h]

theorem extend_of_ne_nil (h : c.ahead ≠ []) : c.extend n tail = {
    current := c.current.lowered n
    ahead := c.ahead.dropLast.map (Placed.lowered n) ++ tail.placed
    depth := c.depth } := by
  obtain ⟨next, more, ahead⟩ := List.exists_cons_of_ne_nil h
  simp only [extend, ahead]

@[simp] theorem depth_extend : (c.extend n tail).depth = c.depth := by
  rw [extend]
  split <;> rfl

theorem token_extend (h : c.ahead ≠ []) : (c.extend n tail).token = c.token := by
  rw [extend_of_ne_nil h]
  rfl

theorem advance_extend (h : c.ahead ≠ []) :
    (c.extend n tail).advance = c.advance.extend n tail := by
  obtain ⟨next, more, ahead⟩ := List.exists_cons_of_ne_nil h
  have step : c.advance = ⟨next, more, c.depth⟩ := by rw [advance, ahead]
  rw [extend_of_ne_nil h, step, ahead]
  cases more with
  | nil => rfl
  | cons after rest => rfl

theorem extend_withDepth (k : Nat) :
    ({ c with depth := k } : Cursor).extend n tail = { c.extend n tail with depth := k } := by
  simp only [extend]
  split <;> rfl

theorem tokens_extend : (c.extend n tail).tokens = c.tokens.dropLast ++ tail.tokens := by
  cases ahead : c.ahead with
  | nil =>
    rw [extend_last ahead, tokens, tokens, tokens, ahead]
    rfl
  | cons next more =>
    have nonempty : c.ahead ≠ [] := by simp [ahead]
    rw [extend_of_ne_nil nonempty, tokens, tokens, tokens, ahead]
    simp [placed, token, Placed.lowered, List.map_dropLast, Function.comp_def]

/-- Tokens with more behind are those of a text if both are. -/
theorem Scanned.extend (h : c.Scanned) (ht : tail.Scanned) : (c.extend n tail).Scanned := by
  have whole : (c.extend n tail).tokens = c.tokens.dropLast ++ tail.tokens := tokens_extend
  constructor
  · rw [whole, List.getLast?_append, ht.ends]
    rfl
  · intro t hm
    rw [whole, List.mem_append] at hm
    exact hm.elim (fun hm => h.genuine t (List.dropLast_subset _ hm)) (ht.genuine t)

@[simp] theorem size_extend : (c.extend n tail).size = c.size + tail.size := by
  have whole : (c.extend n tail).tokens = c.tokens.dropLast ++ tail.tokens := tokens_extend
  have lengths := congrArg List.length whole
  rw [length_tokens, List.length_append, List.length_dropLast, length_tokens, length_tokens]
    at lengths
  omega

/-- What can be taken can be taken with more behind. -/
theorem Takes.extend (h : c.Takes ts d) : (c.extend n tail).Takes ts (d.extend n tail) := by
  induction h with
  | nil => exact .nil _
  | cons current more _ ih =>
    refine .cons ((token_extend more).trans current) ?_ (advance_extend more ▸ ih)
    rw [extend_of_ne_nil more]
    simp [placed]

theorem Takes.placed_suffix (h : c.Takes ts d) : d.placed <:+ c.placed := by
  obtain ⟨consumed, split, -, -⟩ := takes_iff.mp h
  exact ⟨consumed, split.symm⟩

/-- The tokens further on are the last of those from here on. -/
private theorem tokens_of_suffix (suffix : d.placed <:+ c.placed) : d.tokens <:+ c.tokens :=
  suffix.map Placed.token

theorem Ended.of_suffix (h : c.Ended) (suffix : d.placed <:+ c.placed) : d.Ended := by
  obtain ⟨consumed, whole⟩ := tokens_of_suffix suffix
  rw [Ended, ← whole, List.getLast?_append] at h
  simpa [Ended, tokens] using h

theorem Scanned.of_suffix (h : c.Scanned) (suffix : d.placed <:+ c.placed) : d.Scanned where
  ends := Ended.of_suffix h.ends suffix
  genuine t ht := h.genuine t ((tokens_of_suffix suffix).subset ht)

theorem size_le_of_suffix (suffix : d.placed <:+ c.placed) : d.size ≤ c.size :=
  Nat.le_of_succ_le_succ suffix.length_le

theorem advance_placed_suffix : c.advance.placed <:+ c.placed := by
  rw [advance]
  split
  · exact List.suffix_rfl
  · next t ts ahead => exact ⟨[c.current], by simp [placed, ahead]⟩

end Cursor

/-! ## States of reading -/

open HasCursor

/-- States of reading whose cursor may be moved elsewhere. -/
class MovesCursor (σ : Type) extends HasCursor σ where
  withCursor : σ → Cursor → σ
  cursor_withCursor : ∀ s c, cursor (withCursor s c) = c
  withCursor_withCursor : ∀ s c d, withCursor (withCursor s c) d = withCursor s d

attribute [simp] MovesCursor.cursor_withCursor MovesCursor.withCursor_withCursor

instance : MovesCursor Cursor where
  withCursor _ c := c
  cursor_withCursor _ _ := rfl
  withCursor_withCursor _ _ _ := rfl

open MovesCursor

section

variable {σ : Type} [MovesCursor σ] {α β γ δ : Type} {n : Nat} {tail : Cursor}

/-- A state with other tokens in the place of the last. -/
def MovesCursor.extend (n : Nat) (tail : Cursor) (s : σ) : σ :=
  withCursor s ((cursor s).extend n tail)

/-- A parser on the cursor of a state. -/
def Parser.within (P : Parser α) : EStateM SyntaxFault σ α := fun s =>
  match P (cursor s) with
  | .ok a c => .ok a (withCursor s c)
  | .error fault c => .error fault (withCursor s c)

@[simp] theorem Parser.within_cursor (P : Parser α) : (P.within : Parser α) = P := by
  funext c
  have same : (P.within : Parser α) c = match P c with
    | .ok a d => .ok a d
    | .error fault d => .error fault d := rfl
  rw [same]
  cases P c <;> rfl

theorem Parser.within_eq_ok {P : Parser α} {s t : σ} {a : α} :
    (P.within : EStateM SyntaxFault σ α) s = .ok a t ↔
      ∃ c, P (cursor s) = .ok a c ∧ t = withCursor s c := by
  rw [within]
  cases P (cursor s) with
  | error fault c => simp
  | ok b c =>
    simp only [EStateM.Result.ok.injEq]
    constructor
    · rintro ⟨rfl, rfl⟩
      exact ⟨c, ⟨rfl, rfl⟩, rfl⟩
    · rintro ⟨_, ⟨rfl, rfl⟩, rfl⟩
      exact ⟨rfl, rfl⟩

theorem Parser.within_eq_error {P : Parser α} {s t : σ} {fault : SyntaxFault} :
    (P.within : EStateM SyntaxFault σ α) s = .error fault t ↔
      ∃ c, P (cursor s) = .error fault c ∧ t = withCursor s c := by
  rw [within]
  cases P (cursor s) with
  | ok b c => simp
  | error fault' c =>
    simp only [EStateM.Result.error.injEq]
    constructor
    · rintro ⟨rfl, rfl⟩
      exact ⟨c, ⟨rfl, rfl⟩, rfl⟩
    · rintro ⟨_, ⟨rfl, rfl⟩, rfl⟩
      exact ⟨rfl, rfl⟩

/-- What stands in braces, and what becomes of it. -/
def Parser.braced (i : α → γ) (P : EStateM SyntaxFault σ α) : EStateM SyntaxFault σ γ := do
  Parser.openBlock.within
  let a ← P
  Parser.closeBlock.within
  return i a

theorem Parser.braced_eq_ok {i : α → γ} {P : EStateM SyntaxFault σ α} {c : γ} {s t : σ} :
    Parser.braced i P s = .ok c t ↔ (cursor s).token = .braceOpen ∧ ∃ a u,
      P (withCursor s { (cursor s).advance with depth := (cursor s).depth + 1 }) = .ok a u ∧
      (cursor u).token = .braceClose ∧ c = i a ∧
      t = withCursor u { (cursor u).advance with depth := (cursor u).depth - 1 } := by
  have ended (a : α) (u : σ) : (Pure.pure (i a) : EStateM SyntaxFault σ γ) u = .ok (i a) u := rfl
  simp only [braced, bind_eq_ok, within_eq_ok, openBlock_eq_ok, closeBlock_eq_ok, ended,
    EStateM.Result.ok.injEq]
  constructor
  · rintro ⟨-, _, ⟨_, ⟨opens, rfl⟩, rfl⟩, a, u, inner, -, _, ⟨_, ⟨closes, rfl⟩, rfl⟩, rfl, rfl⟩
    exact ⟨opens, a, u, inner, closes, rfl, rfl⟩
  · rintro ⟨opens, a, u, inner, closes, rfl, rfl⟩
    exact ⟨(), _, ⟨_, ⟨opens, rfl⟩, rfl⟩, a, u, inner, (), _, ⟨_, ⟨closes, rfl⟩, rfl⟩, rfl, rfl⟩

theorem Parser.braced_cursor {i : α → γ} {P : Parser α} : Parser.braced i P =
    (do Parser.openBlock; let a ← P; Parser.closeBlock; return i a : Parser γ) := by
  simp only [braced, within_cursor]

/-! ## The same with more behind -/

/-- Among the tokens of a text, where `P` has a value it has moved on, over whole blocks if at all.
Unless it has come to the end of the text, `Q` does the same some lines further down and in front of
other tokens, with a value that corresponds. -/
structure Carries (n : Nat) (tail : Cursor) (f : α → β) (P : EStateM SyntaxFault σ α)
    (Q : EStateM SyntaxFault σ β) : Prop where
  onward : ∀ {s t : σ} {a : α}, (cursor s).Scanned → P s = .ok a t →
    (cursor t).placed <:+ (cursor s).placed ∧ (cursor t).depth = (cursor s).depth
  carry : ∀ {s t : σ} {a : α}, (cursor s).Scanned → P s = .ok a t → (cursor t).ahead ≠ [] →
    Q (extend n tail s) = .ok (f a) (extend n tail t)

/-- The same where `P` takes something, and also at the end of the text. -/
structure Closes (n : Nat) (tail : Cursor) (f : α → β) (P : EStateM SyntaxFault σ α)
    (Q : EStateM SyntaxFault σ β) : Prop extends Carries n tail f P Q where
  takes : ∀ {s t : σ} {a : α}, (cursor s).Scanned → P s = .ok a t →
    (cursor t).size < (cursor s).size
  close : ∀ {s t : σ} {a : α}, (cursor s).Scanned → P s = .ok a t →
    Q (extend n tail s) = .ok (f a) (extend n tail t)

theorem Cursor.ahead_ne_nil_of_suffix {c d : Cursor} (suffix : d.placed <:+ c.placed)
    (more : d.ahead ≠ []) : c.ahead ≠ [] := by
  have less := size_le_of_suffix suffix
  intro empty
  rw [size, size, empty] at less
  exact more (List.length_eq_zero_iff.mp (Nat.le_zero.mp less))

namespace Carries

variable {f : α → β} {g : γ → δ} {P : EStateM SyntaxFault σ α} {Q : EStateM SyntaxFault σ β}
  {k : α → EStateM SyntaxFault σ γ} {l : β → EStateM SyntaxFault σ δ}

theorem pure {a : α} {b : β} (h : f a = b) :
    Carries n tail f (pure a : EStateM SyntaxFault σ α) (pure b) where
  onward _ result := by
    cases result
    exact ⟨List.suffix_rfl, rfl⟩
  carry _ result _ := by
    cases result
    rw [h]
    rfl

/-- What never has a value has no other one. -/
theorem never (h : ∀ s a t, P s ≠ .ok a t) : Carries n tail f P Q where
  onward _ result := (h _ _ _ result).elim
  carry _ result _ := (h _ _ _ result).elim

theorem bind (h : Carries n tail f P Q) (hk : ∀ a, Carries n tail g (k a) (l (f a))) :
    Carries n tail g (P >>= k) (Q >>= l) where
  onward scanned result := by
    obtain ⟨a, u, first, second⟩ := bind_eq_ok.mp result
    obtain ⟨suffix, depth⟩ := h.onward scanned first
    obtain ⟨suffix', depth'⟩ := (hk a).onward (scanned.of_suffix suffix) second
    exact ⟨suffix'.trans suffix, depth'.trans depth⟩
  carry scanned result more := by
    obtain ⟨a, u, first, second⟩ := bind_eq_ok.mp result
    have scanned' := scanned.of_suffix (h.onward scanned first).1
    have between := Cursor.ahead_ne_nil_of_suffix ((hk a).onward scanned' second).1 more
    exact bind_eq_ok.mpr ⟨f a, _, h.carry scanned first between, (hk a).carry scanned' second more⟩

/-- Values that are put together correspond if their parts do. -/
theorem map (h : Carries n tail f P Q) {i : α → γ} {j : β → δ} (hi : ∀ a, g (i a) = j (f a)) :
    Carries n tail g (i <$> P) (j <$> Q) := by
  have bound := h.bind (k := fun a => Pure.pure (i a)) (l := fun b => Pure.pure (j b))
    fun a => pure (hi a)
  rwa [bind_pure_comp, bind_pure_comp] at bound

/-- A parser carries on whatever state its cursor belongs to. -/
theorem within {P : Parser α} {Q : Parser β} (h : Carries n tail f P Q) :
    Carries n tail f (P.within : EStateM SyntaxFault σ α) Q.within where
  onward {s t a} scanned result := by
    obtain ⟨c, inner, rfl⟩ := Parser.within_eq_ok.mp result
    rw [cursor_withCursor]
    exact h.onward (s := cursor s) scanned inner
  carry {s t a} scanned result more := by
    obtain ⟨c, inner, rfl⟩ := Parser.within_eq_ok.mp result
    rw [cursor_withCursor] at more
    have there := h.carry (s := cursor s) scanned inner more
    refine Parser.within_eq_ok.mpr ⟨c.extend n tail, ?_, by simp [extend]⟩
    rw [extend, cursor_withCursor]
    exact there

end Carries

namespace Closes

variable {f : α → β} {g : γ → δ} {P : EStateM SyntaxFault σ α} {Q : EStateM SyntaxFault σ β}
  {k : α → EStateM SyntaxFault σ γ} {l : β → EStateM SyntaxFault σ δ}

theorem never (h : ∀ s a t, P s ≠ .ok a t) : Closes n tail f P Q where
  toCarries := .never h
  takes _ result := (h _ _ _ result).elim
  close _ result := (h _ _ _ result).elim

/-- What comes last decides how parts in sequence end. -/
theorem bind (h : Carries n tail f P Q) (hk : ∀ a, Closes n tail g (k a) (l (f a))) :
    Closes n tail g (P >>= k) (Q >>= l) where
  toCarries := h.bind fun a => (hk a).toCarries
  takes scanned result := by
    obtain ⟨a, u, first, second⟩ := bind_eq_ok.mp result
    obtain ⟨suffix, -⟩ := h.onward scanned first
    exact ((hk a).takes (scanned.of_suffix suffix) second).trans_le
      (Cursor.size_le_of_suffix suffix)
  close scanned result := by
    obtain ⟨a, u, first, second⟩ := bind_eq_ok.mp result
    have scanned' := scanned.of_suffix (h.onward scanned first).1
    have between : (cursor u).ahead ≠ [] := fun empty => by
      have less := (hk a).takes scanned' second
      simp [Cursor.size, empty] at less
    exact bind_eq_ok.mpr ⟨f a, _, h.carry scanned first between, (hk a).close scanned' second⟩

/-- Values may still be put together behind the end. -/
theorem into (h : Closes n tail f P Q)
    (hk : ∀ a, ∃ c, k a = Pure.pure c ∧ l (f a) = Pure.pure (g c)) :
    Closes n tail g (P >>= k) (Q >>= l) where
  toCarries := h.toCarries.bind fun a => by
    obtain ⟨c, here, there⟩ := hk a
    rw [here, there]
    exact .pure rfl
  takes scanned result := by
    obtain ⟨a, u, first, second⟩ := bind_eq_ok.mp result
    obtain ⟨c, here, -⟩ := hk a
    rw [here] at second
    cases second
    exact h.takes scanned first
  close scanned result := by
    obtain ⟨a, u, first, second⟩ := bind_eq_ok.mp result
    obtain ⟨c, here, there⟩ := hk a
    rw [here] at second
    cases second
    exact bind_eq_ok.mpr ⟨f a, _, h.close scanned first, by rw [there]; rfl⟩

theorem map (h : Closes n tail f P Q) {i : α → γ} {j : β → δ} (hi : ∀ a, g (i a) = j (f a)) :
    Closes n tail g (i <$> P) (j <$> Q) := by
  rw [← bind_pure_comp, ← bind_pure_comp]
  exact h.into fun a => ⟨i a, rfl, by rw [hi]⟩

theorem within {P : Parser α} {Q : Parser β} (h : Closes n tail f P Q) :
    Closes n tail f (P.within : EStateM SyntaxFault σ α) Q.within where
  toCarries := h.toCarries.within
  takes {s t a} scanned result := by
    obtain ⟨c, inner, rfl⟩ := Parser.within_eq_ok.mp result
    rw [cursor_withCursor]
    exact h.takes (s := cursor s) scanned inner
  close {s t a} scanned result := by
    obtain ⟨c, inner, rfl⟩ := Parser.within_eq_ok.mp result
    have there := h.close (s := cursor s) scanned inner
    refine Parser.within_eq_ok.mpr ⟨c.extend n tail, ?_, by simp [extend]⟩
    rw [extend, cursor_withCursor]
    exact there

/-- **A block in braces takes these and what is between.**  Its closing brace may be the last
token in front of others, because nothing behind it is looked at. -/
theorem braced (h : Carries n tail f P Q) {i : α → γ} {j : β → δ} (hi : ∀ a, g (i a) = j (f a)) :
    Closes n tail g (Parser.braced i P) (Parser.braced j Q) := by
  have inside {s u : σ} {a : α} (scanned : (cursor s).Scanned)
      (inner : P (withCursor s { (cursor s).advance with depth := (cursor s).depth + 1 }) =
        .ok a u) : (cursor u).placed <:+ (cursor s).advance.placed ∧
        (cursor u).depth = (cursor s).depth + 1 := by
    have moved := h.onward (by rw [cursor_withCursor]; exact scanned.advance.withDepth _) inner
    rwa [cursor_withCursor] at moved
  have shape {s t : σ} {c : γ} (scanned : (cursor s).Scanned)
      (result : Parser.braced i P s = .ok c t) : (cursor t).placed <:+ (cursor s).advance.placed ∧
        (cursor t).depth = (cursor s).depth := by
    obtain ⟨opens, a, u, inner, closes, rfl, rfl⟩ := Parser.braced_eq_ok.mp result
    obtain ⟨suffix, depth⟩ := inside scanned inner
    simp only [cursor_withCursor]
    exact ⟨Cursor.advance_placed_suffix.trans suffix, by omega⟩
  have close {s t : σ} {c : γ} (scanned : (cursor s).Scanned)
      (result : Parser.braced i P s = .ok c t) :
      Parser.braced j Q (extend n tail s) = .ok (g c) (extend n tail t) := by
    obtain ⟨opens, a, u, inner, closes, rfl, rfl⟩ := Parser.braced_eq_ok.mp result
    have more := scanned.ahead_ne_nil (by simp [opens])
    have scanned' := scanned.advance.of_suffix (inside scanned inner).1
    have more' := scanned'.ahead_ne_nil (by simp [closes])
    have there := h.carry (by rw [cursor_withCursor]; exact scanned.advance.withDepth _) inner more'
    refine Parser.braced_eq_ok.mpr ⟨?_, f a, extend n tail u, ?_, ?_, hi a, ?_⟩
    · simp [extend, Cursor.token_extend more, opens]
    · convert there using 2
      simp [extend, Cursor.extend_withDepth, Cursor.advance_extend more]
    · simp [extend, Cursor.token_extend more', closes]
    · simp [extend, Cursor.extend_withDepth, Cursor.advance_extend more']
  refine { onward := fun scanned result => ?_
           carry := fun scanned result _ => close scanned result
           takes := fun {s _ _} scanned result => ?_, close := close }
  · obtain ⟨suffix, depth⟩ := shape scanned result
    exact ⟨suffix.trans Cursor.advance_placed_suffix, depth⟩
  · have opens := (Parser.braced_eq_ok.mp result).1
    have positive : 0 < (cursor s).size :=
      List.length_pos_iff.mpr (scanned.ahead_ne_nil (by simp [opens]))
    have less := Cursor.size_le_of_suffix (shape scanned result).1
    rw [Cursor.size_advance] at less
    omega

end Closes

end

/-! ## Parsers of tokens -/

section

variable {α β : Type} {n : Nat} {tail : Cursor} {f : α → β} {goOn : Cursor → Bool}

/-- A parser that has the same values in front of other tokens. -/
abbrev Keeps (n : Nat) (tail : Cursor) (P : Parser α) : Prop := Carries n tail (fun a => a) P P

namespace Carries

theorem of_cursor {P : Parser α} {Q : Parser β} (onward : ∀ {c d : Cursor} {a : α}, c.Scanned →
      P c = .ok a d → d.placed <:+ c.placed ∧ d.depth = c.depth)
    (carry : ∀ {c d : Cursor} {a : α}, c.Scanned → P c = .ok a d → d.ahead ≠ [] →
      Q (c.extend n tail) = .ok (f a) (d.extend n tail)) : Carries n tail f P Q :=
  ⟨onward, carry⟩

theorem position : Carries n tail (Position.lowered n) Parser.position Parser.position := by
  refine of_cursor (fun _ result => ?_) (fun _ result more => ?_) <;> cases result
  · exact ⟨List.suffix_rfl, rfl⟩
  · rw [Cursor.extend_of_ne_nil more]
    rfl

theorem token : Keeps n tail Parser.token := by
  refine of_cursor (fun _ result => ?_) (fun _ result more => ?_) <;> cases result
  · exact ⟨List.suffix_rfl, rfl⟩
  · rw [Parser.token, Cursor.token_extend more]

theorem advance : Keeps n tail Parser.advance := by
  refine of_cursor (fun _ result => ?_) (fun _ result more => ?_) <;> cases result
  · exact ⟨Cursor.advance_placed_suffix, Cursor.depth_advance _⟩
  · have more' := Cursor.ahead_ne_nil_of_suffix Cursor.advance_placed_suffix more
    rw [Parser.advance, Cursor.advance_extend more']

theorem unexpected (phrase : String) :
    Carries n tail f (Parser.unexpected phrase) (Parser.unexpected phrase) :=
  never fun _ _ _ => Parser.unexpected_ne_ok phrase _

theorem refuse (cause : SyntaxCause) :
    Carries n tail f (Parser.refuse cause) (Parser.refuse cause) :=
  never fun _ _ _ => Parser.refuse_ne_ok cause _

/-- What goes on only where a test allows it. -/
theorem guarded {test : Prop} [Decidable test] {cause : SyntaxCause} {P : Unit → Parser α}
    {Q : Unit → Parser β} (h : Carries n tail f (P ()) (Q ())) :
    Carries n tail f (if test then Parser.refuse cause >>= P else P ())
      (if test then Parser.refuse cause >>= Q else Q ()) := by
  split
  · exact (refuse (f := fun u => u) cause).bind fun _ => h
  · exact h

theorem expect (t : Token) : Keeps n tail (Parser.expect t) := by
  refine token.bind fun t' => ?_
  split
  · exact advance
  · exact unexpected _

/-- What is accepted for its tokens is accepted in front of others. -/
theorem of_takes (ht : tail.Scanned) {P : Parser α} {Accepts : List Token → α → Prop}
    (h : ∀ {c d : Cursor} {a : α}, c.Scanned →
      (P c = .ok a d ↔ ∃ ts, c.Takes ts d ∧ Accepts ts a)) : Keeps n tail P := by
  refine of_cursor (fun scanned result => ?_) (fun scanned result _ => ?_)
  · obtain ⟨ts, takes, -⟩ := (h scanned).mp result
    exact ⟨takes.placed_suffix, takes.depth⟩
  · obtain ⟨ts, takes, accepts⟩ := (h scanned).mp result
    exact (h (scanned.extend ht)).mpr ⟨ts, takes.extend, accepts⟩

/-- A repetition that looks at the current token only. -/
theorem foldWhile (looks : ∀ c : Cursor, c.ahead ≠ [] → goOn (c.extend n tail) = goOn c)
    {step : α → Parser α} {step' : β → Parser β}
    (h : ∀ a, Carries n tail f (step a) (step' (f a))) (a : α) :
    Carries n tail f (Parser.foldWhile goOn step a) (Parser.foldWhile goOn step' (f a)) := by
  have main (c : Cursor) {d : Cursor} {a b : α} (scanned : c.Scanned)
      (result : Parser.foldWhile goOn step a c = .ok b d) :
      (d.placed <:+ c.placed ∧ d.depth = c.depth) ∧ (d.ahead ≠ [] →
        Parser.foldWhile goOn step' (f a) (c.extend n tail) = .ok (f b) (d.extend n tail)) := by
    induction a, c using Parser.foldWhile_induction goOn step with
    | finish a c ends =>
      rw [Parser.foldWhile_end ends] at result
      cases result
      exact ⟨⟨List.suffix_rfl, rfl⟩, fun more => Parser.foldWhile_end ((looks _ more).trans ends)⟩
    | more a c next e continues first less ih =>
      obtain ⟨suffix, depth⟩ : e.placed <:+ c.placed ∧ e.depth = c.depth :=
        (h a).onward scanned first
      rw [Parser.foldWhile_cons continues first less] at result
      obtain ⟨⟨suffix', depth'⟩, carried⟩ := ih (scanned.of_suffix suffix) result
      refine ⟨⟨suffix'.trans suffix, depth'.trans depth⟩, fun more => ?_⟩
      -- Both repetitions take the same step, as the text goes on behind it.
      have behind := Cursor.ahead_ne_nil_of_suffix suffix' more
      have continues' : goOn (c.extend n tail) = true :=
        (looks c (Cursor.ahead_ne_nil_of_suffix suffix behind)).trans continues
      have first' : step' (f a) (c.extend n tail) = .ok (f next) (e.extend n tail) :=
        (h a).carry scanned first behind
      rw [Parser.foldWhile_cons continues' first' (by simpa using less), carried more]
    | last a c next e continues first less =>
      have onward := (h a).onward scanned first
      have carry := (h a).carry scanned first
      rw [Parser.foldWhile_last continues first less] at result
      cases result
      exact ⟨onward, fun more => Parser.foldWhile_last
        ((looks c (Cursor.ahead_ne_nil_of_suffix onward.1 more)).trans continues) (carry more)
        (by simpa using less)⟩
    | stop a c fault e continues first =>
      rw [Parser.foldWhile_stop continues first] at result
      cases result
  exact of_cursor (fun scanned result => (main _ scanned result).1)
    (fun scanned result more => (main _ scanned result).2 more)

theorem repeatWhile (looks : ∀ c : Cursor, c.ahead ≠ [] → goOn (c.extend n tail) = goOn c)
    {item : Parser α} {item' : Parser β} (h : Carries n tail f item item') :
    Carries n tail (List.map f) (Parser.repeatWhile goOn item)
      (Parser.repeatWhile goOn item') := by
  have rounds : Carries n tail (List.map f)
      (Parser.foldWhile goOn (fun values => do return (← item) :: values) [])
      (Parser.foldWhile goOn (fun values => do return (← item') :: values) []) :=
    foldWhile looks (fun values => h.bind (l := fun b => Pure.pure (b :: values.map f))
      fun _ => pure List.map_cons) []
  exact rounds.bind fun _ => pure List.map_reverse

theorem string : Keeps n tail Parser.string := by
  refine token.bind fun t => ?_
  split
  · exact advance.bind fun _ => pure rfl
  · exact unexpected _

theorem nameOf (phrase : String) : Keeps n tail (Parser.nameOf phrase) := by
  refine token.bind fun t => ?_
  have behind (name : String) : Keeps n tail (do
      if name.isEmpty then Parser.refuse (.emptyName phrase)
      Parser.advance
      return name) :=
    guarded (advance.bind fun _ => pure rfl)
  split
  · exact behind _
  · exact behind _
  · exact (unexpected _).bind behind

theorem segment (phrase : String) : Keeps n tail (Parser.segment phrase) := by
  refine advance.bind fun _ => token.bind fun t => ?_
  split
  · exact advance.bind fun _ => pure rfl
  · exact unexpected _

theorem reference (phrase : String) : Keeps n tail (Parser.reference phrase) := by
  refine token.bind fun t => ?_
  split
  · exact advance.bind fun _ => pure rfl
  · have colons : Carries n tail (List.map fun text => text)
        (Parser.repeatWhile (fun c => c.token = .colon) (Parser.segment phrase))
        (Parser.repeatWhile (fun c => c.token = .colon) (Parser.segment phrase)) :=
      repeatWhile (fun c more => by rw [Cursor.token_extend more]) (segment phrase)
    rw [List.map_id_fun'] at colons
    exact advance.bind fun _ => colons.bind fun _ => pure rfl
  · exact unexpected _

end Carries

end

end Compliance
