import Compliance.Inquiry
import Compliance.Proofs.Access

/-!
# Every question is put once

What a store answers can be read off what was asked and returned: the first
exchange that tells the answer to a question decides it from then on.  A listing
also tells the answers for the resources in it, which is why it may come too late
for some of them.

## Main definitions

* `Exchange.tells`, `History.answer?` — what exchanges tell about a question.
* `Session.askAll` — asking one question after the other, whoever is to answer each.
* `Session.Orderly` — no call was made twice, and none without its answer being kept.
* `Session.Reflects` — a session answers what a history says.
-/

namespace Compliance

/-! ## Histories -/

/-- A question, and what was returned. -/
structure Exchange where
  call : Call
  answer : Answer call.Reply

/-- What an exchange tells about a question: the answer to its own, and if that was a listing, the
first resource of a name. -/
def Exchange.tells : Exchange → (call : Call) → Option (Answer call.Reply)
  | ⟨.list type, answer⟩, .list other => if other = type then some answer else none
  | ⟨.list _, .ok resources⟩, .lookup ref =>
    (resources.find? (·.ref = ref)).map fun r => .ok (some r)
  | ⟨.list _, .error _⟩, .lookup _ => none
  | ⟨.lookup ref, answer⟩, .lookup other => if other = ref then some answer else none
  | ⟨.lookup _, _⟩, .list _ => none

/-- Exchanges, the oldest first. -/
abbrev History := List Exchange

namespace History

/-- The first that exchanges tell about a question. -/
def answer? (history : History) (call : Call) : Option (Answer call.Reply) :=
  history.findSome? (·.tells call)

theorem answer?_append (history : History) (e : Exchange) (call : Call) :
    answer? (history ++ [e]) call = (history.answer? call).or (e.tells call) := by
  simp [answer?, List.findSome?_append]

end History

namespace Exchange

@[simp] theorem tells_self (call : Call) (answer : Answer call.Reply) :
    tells ⟨call, answer⟩ call = some answer := by
  cases call <;> simp [tells]

/-- An exchange tells all that an answer would tell that it tells. -/
theorem tells_trans {e : Exchange} {call other : Call} {answer : Answer call.Reply}
    {told : Answer other.Reply} (h : e.tells call = some answer)
    (ho : tells ⟨call, answer⟩ other = some told) : e.tells other = some told := by
  cases call with
  | list type =>
    obtain ⟨own | own, returned⟩ := e
    · simp only [tells] at h
      split at h
      · next same =>
        subst same
        obtain rfl := Option.some.inj h
        exact ho
      · cases h
    · simp [tells] at h
  | lookup ref =>
    cases other with
    | list type => simp [tells] at ho
    | lookup other =>
      simp only [tells] at ho
      split at ho
      · next same =>
        subst same
        exact h.trans ho
      · cases ho

/-- A listing tells the answers for all its resources. -/
theorem tells_listed {type : TypeRef} {resources : List Resource} {r : Resource}
    (h : r ∈ resources) :
    ∃ found, tells ⟨.list type, .ok resources⟩ (.lookup r.ref) = some found := by
  cases hf : resources.find? (·.ref = r.ref) with
  | none =>
    have absent := List.find?_eq_none.mp hf r h
    simp at absent
  | some first => exact ⟨.ok (some first), by simp [tells, hf]⟩

end Exchange

/-- Whatever an answer that was told would tell was told as well. -/
theorem History.answer?_ne_none {history : History} {call other : Call}
    {answer : Answer call.Reply} {told : Answer other.Reply}
    (h : history.answer? call = some answer)
    (ho : Exchange.tells ⟨call, answer⟩ other = some told) : history.answer? other ≠ none := by
  obtain ⟨e, he, tells⟩ := List.exists_of_findSome?_eq_some h
  intro silent
  have nothing := List.findSome?_eq_none_iff.mp silent e he
  rw [Exchange.tells_trans tells ho] at nothing
  cases nothing

/-! ## Sessions with a history -/

namespace Store

/-- Recording the answer to a question that has none adds what the exchange tells. -/
theorem answerTo?_record {store : Store} {call : Call} (fresh : store.answerTo? call = none)
    (answer : Answer call.Reply) (other : Call) :
    (store.record call answer).answerTo? other =
      (store.answerTo? other).or (Exchange.tells ⟨call, answer⟩ other) := by
  cases call with
  | list type =>
    cases other with
    | list other =>
      simp only [answerTo?] at fresh
      simp only [answerTo?, record, listing?_keepListing, Exchange.tells]
      by_cases same : other = type
      · simp [same, fresh]
      · simp [same]
    | lookup ref =>
      simp only [answerTo?, record, answer?_keepListing]
      cases answer with
      | ok resources => exact answer?_keepAll store resources ref
      | error fault => simp [Exchange.tells]
  | lookup ref =>
    cases other with
    | list other => simp [answerTo?, record, Exchange.tells, listing?]
    | lookup other =>
      simp only [answerTo?] at fresh
      simp only [answerTo?, record, answer?_keep, Exchange.tells]
      by_cases same : other = ref
      · simp [same, fresh]
      · simp [same]

/-- What is kept is the answers to questions of both kinds. -/
theorem keptBy_iff {before after : Store} : before.KeptBy after ↔
    ∀ call answer, before.answerTo? call = some answer → after.answerTo? call = some answer := by
  constructor
  · rintro kept (type | ref) answer h
    · exact kept.listing h
    · exact kept.answer h
  · intro h
    exact ⟨fun known => h (.list _) _ known, fun known => h (.lookup _) _ known⟩

/-- What can be read without asking is what a name was answered with. -/
theorem cached?_eq_some {store : Store} {ref : ResourceRef} {r : Resource} :
    store.cached? ref = some r ↔ store.answer? ref = some (.ok (some r)) := by
  rw [cached?]
  split
  · next h => simp [h]
  · next h => simpa using h (some r)

end Store

/-! ### Order -/

/-- While some questions are pending, a session is in order: none of them is pending twice or has
an answer, no call was made twice, and every question that was put is answered or pending. -/
structure Session.Orderly (s : Session) (pending : List Call) : Prop where
  apart : pending.Nodup
  unanswered : ∀ call ∈ pending, s.store.answerTo? call = none
  once : s.calls.Nodup
  placed : ∀ call ∈ s.calls, s.store.answerTo? call ≠ none ∨ call ∈ pending

namespace Session

variable {s : Session} {history : History}

theorem orderly_start : start.Orderly [] :=
  ⟨List.nodup_nil, by simp, List.nodup_nil, by simp [start]⟩

/-- A question without an answer was not put before, if none is pending. -/
theorem Orderly.not_mem_calls (h : s.Orderly []) {call : Call}
    (fresh : s.store.answerTo? call = none) : call ∉ s.calls := fun asked =>
  (h.placed call asked).elim (absurd fresh) List.not_mem_nil

/-- **Asking keeps a session in order**: a call is made only if the store has no answer. -/
theorem Orderly.ask (h : s.Orderly []) (provider : Provider) (call : Call) :
    (ask provider call s).2.Orderly [] := by
  rw [Session.ask_eq]
  cases known : s.store.answerTo? call with
  | some answer => exact h
  | none =>
    refine ⟨h.apart, by simp, ?_, fun other asked => .inl ?_⟩
    · exact List.nodup_append.mpr ⟨h.once, by simp, fun asked before new hn same =>
        h.not_mem_calls known (List.mem_singleton.mp hn ▸ same ▸ before)⟩
    · rw [Store.answerTo?_record known]
      rcases List.mem_append.mp asked with before | now
      · simp [(h.placed other before).resolve_right List.not_mem_nil]
      · obtain rfl := List.mem_singleton.mp now
        simp

/-! ### What a session answers -/

/-- A session answers what a history says: the store answers a question as the history first did,
and so it did whenever the question was asked again. -/
structure Reflects (s : Session) (history : History) : Prop where
  first : ∀ call, s.store.answerTo? call = history.answer? call
  returned : ∀ e ∈ history, history.answer? e.call = some e.answer

theorem reflects_start : start.Reflects [] where
  first call := by cases call <;> rfl
  returned := by simp

/-- Asking adds one exchange to the history. -/
theorem Reflects.ask (h : s.Reflects history) (provider : Provider) (call : Call) :
    (ask provider call s).2.Reflects (history ++ [⟨call, (Session.ask provider call s).1⟩]) := by
  -- What was returned before stays told, and this exchange tells what it returns now.
  have returned : ∀ answer : Answer call.Reply,
      (history.answer? call).or (some answer) = some answer →
      ∀ e ∈ history ++ [⟨call, answer⟩],
        History.answer? (history ++ [⟨call, answer⟩]) e.call = some e.answer := by
    intro answer now e he
    rw [History.answer?_append]
    rcases List.mem_append.mp he with before | new
    · rw [h.returned e before, Option.some_or]
    · obtain rfl := List.mem_singleton.mp new
      rwa [Exchange.tells_self]
  rw [Session.ask_eq]
  cases known : s.store.answerTo? call with
  | some answer =>
    have told : history.answer? call = some answer := (h.first call).symm.trans known
    refine ⟨fun other => ?_, returned answer (by rw [told, Option.some_or])⟩
    rw [h.first, History.answer?_append]
    cases silent : history.answer? other with
    | some _ => rfl
    | none =>
      cases news : Exchange.tells ⟨call, answer⟩ other with
      | none => rfl
      | some _ => exact absurd silent (History.answer?_ne_none told news)
  | none =>
    have silent : history.answer? call = none := (h.first call).symm.trans known
    refine ⟨fun other => ?_, returned _ (by rw [silent, Option.none_or])⟩
    rw [Store.answerTo?_record known, h.first, History.answer?_append]

/-! ## Questions one after the other -/

/-- Asks some questions one after the other, each by way of the store and with the provider that is
to answer it if the store has no answer. -/
def askAll : List (Provider × Call) → Session → History × Session
  | [], s => ([], s)
  | (provider, call) :: more, s =>
    let (answer, t) := ask provider call s
    let (others, u) := askAll more t
    (⟨call, answer⟩ :: others, u)

theorem Orderly.askAll (h : s.Orderly []) (requests : List (Provider × Call)) :
    (askAll requests s).2.Orderly [] := by
  induction requests generalizing s with
  | nil => exact h
  | cons request more ih => exact ih (h.ask request.1 request.2)

/-- **A session answers what its history says.** -/
theorem Reflects.askAll (h : s.Reflects history) (requests : List (Provider × Call)) :
    (askAll requests s).2.Reflects (history ++ (Session.askAll requests s).1) := by
  induction requests generalizing s history with
  | nil => simpa [Session.askAll] using h
  | cons request more ih =>
    have rest := ih (h.ask request.1 request.2)
    rwa [List.append_assoc] at rest

variable (h : s.Reflects history)
include h

/-- A question that the history answers is answered that way without a call. -/
theorem Reflects.ask_of_told {call : Call} {answer : Answer call.Reply}
    (told : history.answer? call = some answer) (provider : Provider) :
    Session.ask provider call s = (answer, s) := by
  rw [Session.ask_eq, h.first, told]

theorem Reflects.ask_listed {type : TypeRef} {resources : List Resource}
    (listed : ⟨.list type, .ok resources⟩ ∈ history) {r : Resource} (hr : r ∈ resources)
    (provider : Provider) : (Session.ask provider (.lookup r.ref) s).2 = s := by
  obtain ⟨found, told⟩ := Exchange.tells_listed hr
  obtain ⟨first, known⟩ := Option.ne_none_iff_exists'.mp
    (History.answer?_ne_none (h.returned _ listed) told)
  rw [h.ask_of_told known]

end Session

end Compliance
