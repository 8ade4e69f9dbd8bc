import Compliance.Audit.Crew
import Compliance.Proofs.Store.History
import Compliance.Proofs.Verdict.Meaning

/-!
# Providers that do not change their answers

If every call has one answer, and looking up a resource that was listed gives what
the listing has, a store can only hold these answers, whoever filled it and in
whichever order.  What comes of an inquiry is then settled before it begins, and so
is what it asks on the way.

## Main definitions

* `Registry.Steady` — answers do not change, and listings agree with look-ups.
* `Registry.answer` — the answer to a call.
* `Store.Agrees` — a store holds no other answers.
* `Inquiry.result`, `Inquiry.asked` — what comes of an inquiry, and what it asks.
* `Inquiry.outcome_access` — asked by way of any such store, that comes of it.
-/

namespace Compliance

/-! ## Steady providers -/

/-- The answer to a call before any other call. -/
def Registry.answer (registry : Registry) (call : Call) : Answer call.Reply := do
  (← registry.forType call.type).answer [] call

/-- Providers whose answers do not depend on the calls before, and whose listings agree with what
they look up: a listed resource has the type, and under its name the first that was listed is
found. -/
structure Registry.Steady (registry : Registry) : Prop where
  list : ∀ {type provider}, registry.forType type = .ok provider →
    ∀ calls, provider.list calls type = provider.list [] type
  lookup : ∀ {ref : ResourceRef} {provider}, registry.forType ref.type = .ok provider →
    ∀ calls, provider.lookup calls ref = provider.lookup [] ref
  typed : ∀ {type provider resources}, registry.forType type = .ok provider →
    provider.list [] type = .ok resources → ∀ r ∈ resources, r.type = type
  listed : ∀ {type provider resources}, registry.forType type = .ok provider →
    provider.list [] type = .ok resources → ∀ r ∈ resources,
      provider.lookup [] r.ref = .ok (resources.find? (·.ref = r.ref))

namespace Registry

variable {registry : Registry}

theorem answer_of_forType {call : Call} {provider : Provider}
    (served : registry.forType call.type = .ok provider) :
    registry.answer call = provider.answer [] call := by
  rw [answer, served]
  rfl

theorem answer_of_unserved {call : Call} {fault : ProviderFault}
    (unserved : registry.forType call.type = .error fault) :
    registry.answer call = .error fault := by
  rw [answer, unserved]
  rfl

/-- Whenever a provider is called, it gives its answer. -/
theorem Steady.answer (steady : registry.Steady) {call : Call} {provider : Provider}
    (served : registry.forType call.type = .ok provider) (calls : List Call) :
    provider.answer calls call = registry.answer call := by
  rw [answer_of_forType served]
  cases call with
  | list type => exact steady.list served calls
  | lookup ref => exact steady.lookup served calls

/-- A resource that is listed is answered with the first of its name. -/
theorem Steady.answer_listed (steady : registry.Steady) {type : TypeRef}
    {resources : List Resource} (h : registry.answer (.list type) = .ok resources) {r : Resource}
    (hr : r ∈ resources) :
    registry.answer (.lookup r.ref) = .ok (resources.find? (·.ref = r.ref)) := by
  cases served : registry.forType type with
  | error fault =>
    rw [answer_of_unserved served] at h
    cases h
  | ok provider =>
    rw [answer_of_forType served] at h
    obtain rfl := steady.typed served h r hr
    have found := steady.listed served h r hr
    rwa [answer_of_forType served]

/-- What an answer tells about another question is the answer to that. -/
theorem Steady.tells (steady : registry.Steady) {call other : Call} {told : Answer other.Reply}
    (h : Exchange.tells ⟨call, registry.answer call⟩ other = some told) :
    registry.answer other = told := by
  cases call with
  | list type =>
    cases other with
    | list other =>
      simp only [Exchange.tells] at h
      split at h
      · next same =>
        subst same
        exact Option.some.inj h
      · cases h
    | lookup ref =>
      cases listed : registry.answer (.list type) with
      | error fault =>
        rw [listed] at h
        cases h
      | ok resources =>
        rw [listed] at h
        obtain ⟨r, hf, rfl⟩ := Option.map_eq_some_iff.mp h
        obtain rfl : r.ref = ref := by simpa using List.find?_some hf
        rw [steady.answer_listed listed (List.mem_of_find?_eq_some hf), hf]
  | lookup ref =>
    cases other with
    | list type => cases h
    | lookup other =>
      simp only [Exchange.tells] at h
      split at h
      · next same =>
        subst same
        exact Option.some.inj h
      · cases h

/-! ### Providers of given resources -/

theorem mem_of_forType_ofProviders {providers : List Provider} {type : TypeRef}
    {provider : Provider} (h : (ofProviders providers).forType type = .ok provider) :
    provider ∈ providers := by
  have every : ∀ (more : List Provider) (registry : Registry),
      (more.foldl register registry).forType type = .ok provider →
        registry.forType type = .ok provider ∨ provider ∈ more := by
    intro more
    induction more with
    | nil => exact fun _ h => .inl h
    | cons first more ih =>
      intro registry h
      rcases ih _ h with here | later
      · rw [forType_register] at here
        split at here
        · exact .inr (Except.ok.inj here ▸ List.mem_cons_self ..)
        · exact .inl here
      · exact .inr (List.mem_cons_of_mem _ later)
  exact (every providers empty h).resolve_left nofun

theorem steady_of_holding (h : ∀ type provider, registry.forType type = .ok provider →
    ∃ name resources, provider = .holding name resources) : registry.Steady where
  list {type provider} served calls := by
    obtain ⟨name, resources, rfl⟩ := h type provider served
    rfl
  lookup {ref provider} served calls := by
    obtain ⟨name, resources, rfl⟩ := h ref.type provider served
    rfl
  typed {type provider listed} served answered r hr := by
    obtain ⟨name, resources, rfl⟩ := h type provider served
    obtain rfl := Except.ok.inj answered
    simpa using (List.mem_filter.mp hr).2
  listed {type provider listed} served answered r hr := by
    obtain ⟨name, resources, rfl⟩ := h type provider served
    obtain rfl := Except.ok.inj answered
    obtain rfl : r.type = type := by simpa using (List.mem_filter.mp hr).2
    exact congrArg Except.ok (Store.find?_filter_type resources r.ref).symm

end Registry

/-! ## Stores of their answers -/

/-- Every answer that a store has is that of the providers. -/
def Store.Agrees (registry : Registry) (store : Store) : Prop :=
  ∀ call answer, store.answerTo? call = some answer → registry.answer call = answer

namespace Store

variable {registry : Registry} {store : Store}

theorem agrees_empty (registry : Registry) : empty.Agrees registry := by
  rintro (type | ref) answer h <;> cases h

/-- Recording an answer of steady providers adds only such. -/
theorem Agrees.record (h : store.Agrees registry) (steady : registry.Steady) {call : Call}
    (fresh : store.answerTo? call = none) :
    (store.record call (registry.answer call)).Agrees registry := by
  intro other answer known
  rw [answerTo?_record fresh] at known
  cases before : store.answerTo? other with
  | some first =>
    rw [before, Option.some_or] at known
    exact Option.some.inj known ▸ h other first before
  | none =>
    rw [before, Option.none_or] at known
    exact steady.tells known

/-- What such a store has is read as the providers would answer. -/
theorem Agrees.cached? (h : store.Agrees registry) {ref : ResourceRef}
    (answered : store.answerTo? (.lookup ref) ≠ none) :
    store.cached? ref = (registry.answer (.lookup ref)).toOption.join := by
  obtain ⟨answer, known⟩ := Option.ne_none_iff_exists'.mp answered
  rw [h _ _ known]
  have known' : store.answer? ref = some answer := known
  rw [Store.cached?, known']
  rcases answer with fault | found <;> rfl

end Store

/-- Asking a registry is asking the provider that serves the type. -/
theorem Access.outcome_ask (registry : Registry) (call : Call) (s : Session) :
    (Access.ask registry call).outcome s = match registry.forType call.type with
      | .ok provider => Session.ask provider call s
      | .error fault => (.error fault, s) := by
  cases call with
  | list type => exact outcome_list registry type s
  | lookup ref => exact outcome_lookup registry ref s

namespace Registry.Steady

variable {registry : Registry} (steady : registry.Steady) {s : Session}
include steady

/-- From a store that agrees, a question gets the answer that the providers have for it. -/
theorem outcome_ask (agrees : s.store.Agrees registry) (call : Call) :
    ((Access.ask registry call).outcome s).1 = registry.answer call := by
  rw [Access.outcome_ask]
  cases served : registry.forType call.type with
  | error fault => exact (answer_of_unserved served).symm
  | ok provider =>
    simp only [Session.ask_eq]
    cases known : s.store.answerTo? call with
    | some answer => exact (agrees call answer known).symm
    | none => exact steady.answer served s.calls

theorem agrees_ask (agrees : s.store.Agrees registry) (call : Call) :
    ((Access.ask registry call).outcome s).2.store.Agrees registry := by
  rw [Access.outcome_ask]
  cases served : registry.forType call.type with
  | error fault => exact agrees
  | ok provider =>
    simp only [Session.ask_eq]
    cases known : s.store.answerTo? call with
    | some answer => exact agrees
    | none =>
      simp only [steady.answer served]
      exact agrees.record steady known

theorem preserves_agrees : registry.Preserves fun s => s.store.Agrees registry where
  list type _ agrees := steady.agrees_ask agrees (.list type)
  lookup ref _ agrees := steady.agrees_ask agrees (.lookup ref)

end Registry.Steady

namespace Access

variable {registry : Registry} {call : Call} {s t : Session} {reply : call.Reply}

/-- A question that is answered well had its answer in the store, or the answer is recorded. -/
theorem store_of_yields_ask (h : (Access.ask registry call).Yields s reply t) :
    s.store.answerTo? call = some (.ok reply) ∧ t = s ∨
      s.store.answerTo? call = none ∧ t.store = s.store.record call (.ok reply) := by
  rw [Yields, outcome_ask] at h
  cases served : registry.forType call.type with
  | error fault =>
    rw [served] at h
    cases h
  | ok provider =>
    simp only [served, Session.ask_eq] at h
    cases known : s.store.answerTo? call with
    | some answer =>
      simp only [known, Prod.mk.injEq] at h
      obtain ⟨rfl, rfl⟩ := h
      exact .inl ⟨rfl, rfl⟩
    | none =>
      simp only [known, Prod.mk.injEq] at h
      obtain ⟨same, rfl⟩ := h
      exact .inr ⟨rfl, by rw [same]⟩

theorem answerTo?_of_yields_ask (h : (Access.ask registry call).Yields s reply t) :
    t.store.answerTo? call = some (.ok reply) := by
  rcases store_of_yields_ask h with ⟨known, rfl⟩ | ⟨fresh, recorded⟩
  · exact known
  · rw [recorded, Store.answerTo?_record fresh, fresh, Option.none_or, Exchange.tells_self]

end Access

/-! ## What comes of an inquiry -/

namespace Inquiry

variable {α : Type}

/-- What comes of an inquiry if every question gets the providers' answer. -/
def result (registry : Registry) : Inquiry α → Answer α
  | .done result => result
  | .ask call next =>
    match registry.answer call with
    | .ok reply => (next reply).result registry
    | .error fault => .error fault

/-- The questions that are answered on the way, in order. -/
def asked (registry : Registry) : Inquiry α → List Call
  | .done _ => []
  | .ask call next =>
    match registry.answer call with
    | .ok reply => call :: (next reply).asked registry
    | .error _ => []

variable {registry : Registry} {s : Session}

/-- **From a store that agrees, what comes of an inquiry is settled**, and the questions on the way
are answered behind it. -/
theorem outcome_access (steady : registry.Steady) (p : Inquiry α)
    (agrees : s.store.Agrees registry) :
    ((p.access registry).outcome s).1 = p.result registry ∧
      ∀ call ∈ p.asked registry,
        ((p.access registry).outcome s).2.store.answerTo? call ≠ none := by
  induction p generalizing s with
  | done result => exact ⟨rfl, by simp [asked]⟩
  | ask call next ih =>
    have answer := steady.outcome_ask agrees call
    have after := steady.agrees_ask agrees call
    simp only [access, Access.outcome_bind, result, asked]
    rcases hy : (Access.ask registry call).outcome s with ⟨fault | reply, t⟩
    · rw [hy] at answer
      simp [← answer]
    · rw [hy] at answer after
      simp only [← answer]
      obtain ⟨same, answered⟩ := ih reply after
      refine ⟨same, List.forall_mem_cons.mpr ⟨?_, answered⟩⟩
      -- What is asked later leaves this answer in the store.
      have here := Access.answerTo?_of_yields_ask hy
      have kept := access_preserves (registry.preserves_keptBy t.store) (next reply) t (.refl _)
      simp [Store.keptBy_iff.mp kept call _ here]

/-- If the store has all listings that an inquiry asks for, it gets no answer for a name but by
asking for it. -/
theorem asked_of_answered (steady : registry.Steady) (p : Inquiry α)
    (agrees : s.store.Agrees registry) {a : α} (ends : p.result registry = .ok a)
    (listed : ∀ type, .list type ∈ p.asked registry → s.store.listing? type ≠ none)
    {ref : ResourceRef} (answered : ((p.access registry).outcome s).2.store.answer? ref ≠ none) :
    s.store.answer? ref ≠ none ∨ .lookup ref ∈ p.asked registry := by
  induction p generalizing s with
  | done result => exact .inl answered
  | ask call next ih =>
    have answer := steady.outcome_ask agrees call
    have after := steady.agrees_ask agrees call
    simp only [access, Access.outcome_bind] at answered
    simp only [result, asked] at ends listed ⊢
    rcases hy : (Access.ask registry call).outcome s with ⟨fault | reply, t⟩
    · rw [hy] at answer
      simp [← answer] at ends
    · rw [hy] at answer after answered
      simp only [← answer, List.mem_cons] at ends listed ⊢
      rcases Access.store_of_yields_ask hy with ⟨-, rfl⟩ | ⟨fresh, recorded⟩
      · exact (ih reply agrees ends (fun type h => listed type (.inr h)) answered).imp_right .inr
      · cases call with
        | list type => exact absurd fresh (listed type (.inl rfl))
        | lookup other =>
          have listed' : ∀ type, .list type ∈ (next reply).asked registry →
              t.store.listing? type ≠ none := by
            intro type h
            rw [recorded]
            simpa [Store.record, Store.listing?] using listed type (.inr h)
          rcases ih reply after ends listed' answered with before | later
          · rw [recorded] at before
            simp only [Store.record, Store.answer?_keep] at before
            split at before
            · next same => exact .inr (.inl (same ▸ rfl))
            · exact .inl before
          · exact .inr (.inr later)

end Inquiry

end Compliance
