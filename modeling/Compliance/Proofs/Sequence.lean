/-!
# Steps in sequence

Of two steps that read or compute, the second is taken from where the first leaves off,
and not at all where the first stops.  What the two come to is known from what each comes
to; this is said once here, whatever it is that the steps carry along.

## Main definitions

* `bind_ok`, `bind_error` — the two steps, from what the first comes to.
* `bind_eq_ok` — they have a value if each has one.
* `Except.bind_eq_ok` — the same for steps that carry nothing along.
-/

namespace Compliance

section

variable {ε σ α β : Type} {x : EStateM ε σ α} {f : α → EStateM ε σ β} {s t : σ} {a : α} {b : β}
  {e : ε}

theorem bind_ok (h : x s = .ok a t) : (x >>= f) s = f a t := by
  change EStateM.bind x f s = _
  rw [EStateM.bind, h]

theorem bind_error (h : x s = .error e t) : (x >>= f) s = .error e t := by
  change EStateM.bind x f s = _
  rw [EStateM.bind, h]

/-- **Two steps have a value if the first has one and the second has one behind it.** -/
theorem bind_eq_ok : (x >>= f) s = .ok b t ↔ ∃ a u, x s = .ok a u ∧ f a u = .ok b t := by
  cases first : x s with
  | ok a u =>
    rw [bind_ok first]
    constructor
    · intro second
      exact ⟨a, u, rfl, second⟩
    · rintro ⟨_, _, same, second⟩
      cases same
      exact second
  | error e u =>
    rw [bind_error first]
    constructor
    · intro stopped
      cases stopped
    · rintro ⟨_, _, never, -⟩
      cases never

/-- Where the first step never has a value there is none. -/
theorem bind_ne_ok (h : ∀ s a t, x s ≠ .ok a t) (f : α → EStateM ε σ β) (s : σ) (b : β) (t : σ) :
    (x >>= f) s ≠ .ok b t := by
  intro both
  obtain ⟨a, u, first, -⟩ := bind_eq_ok.mp both
  exact h s a u first

end

/-- Two steps that carry nothing along have a value if the first has one and the second has one
of it. -/
theorem Except.bind_eq_ok {ε α β : Type} {x : Except ε α} {f : α → Except ε β} {b : β} :
    (x >>= f) = .ok b ↔ ∃ a, x = .ok a ∧ f a = .ok b := by
  cases x with
  | error e => exact ⟨fun h => (nomatch h), fun ⟨_, h, _⟩ => (nomatch h)⟩
  | ok a => exact ⟨fun h => ⟨a, rfl, h⟩, fun ⟨_, same, h⟩ => Except.ok.inj same ▸ h⟩

end Compliance
