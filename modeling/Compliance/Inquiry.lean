import Compliance.Store

/-!
# Inquiries

Questions to providers, one after the other, where what is asked next may depend
on the answers so far.  An inquiry says what is asked and nothing about how it is
answered: `Inquiry.access` asks everything by way of a session at once, but others
may also ask in between.

## Main definitions

* `Call.Reply` — what a call is answered with.
* `Session.ask` — asking by way of the store, whichever kind the call is of.
* `Inquiry` — a question and how to go on, or the end.
* `Inquiry.access` — asking by way of a session.
-/

namespace Compliance

/-! ## Calls of both kinds -/

def Call.type : Call → TypeRef
  | .list type => type
  | .lookup ref => ref.type

/-- What a call is answered with if nothing fails. -/
abbrev Call.Reply : Call → Type
  | .list _ => List Resource
  | .lookup _ => Option Resource

/-- What a provider answers to a call. -/
def Provider.answer (p : Provider) (calls : List Call) : (call : Call) → Answer call.Reply
  | .list type => p.list calls type
  | .lookup ref => p.lookup calls ref

namespace Store

def answerTo? (store : Store) : (call : Call) → Option (Answer call.Reply)
  | .list type => store.listing? type
  | .lookup ref => store.answer? ref

/-- The store with the answer to a call, unless it has one. -/
def record (store : Store) : (call : Call) → Answer call.Reply → Store
  | .list type, answer => store.keepListing type answer
  | .lookup ref, answer => store.keep ref answer

end Store

namespace Session

/-- The answer to a call; the provider is called if the store has none. -/
def ask (provider : Provider) : (call : Call) → Session → Answer call.Reply × Session
  | .list type, s => list provider type s
  | .lookup ref, s => lookup provider ref s

/-- An answer that the store has is given without a call, and any other becomes the store's. -/
theorem ask_eq (provider : Provider) (call : Call) (s : Session) :
    ask provider call s = match s.store.answerTo? call with
      | some answer => (answer, s)
      | none => (provider.answer s.calls call,
          ⟨s.store.record call (provider.answer s.calls call), s.calls ++ [call]⟩) := by
  cases call with
  | list type =>
    simp only [ask, list, Store.answerTo?]
    cases s.store.listing? type <;> rfl
  | lookup ref =>
    simp only [ask, lookup, Store.answerTo?]
    cases s.store.answer? ref <;> rfl

end Session

/-- The answer to a call, from the provider that serves its type. -/
def Access.ask (registry : Registry) : (call : Call) → Access call.Reply
  | .list type => Access.list registry type
  | .lookup ref => Access.lookup registry ref

/-! ## Inquiries -/

/-- What is asked, one question after the other. -/
inductive Inquiry (α : Type) where
  /-- Nothing more is asked. -/
  | done (result : Answer α)
  /-- A question, and how to go on behind the answer; a fault is the end. -/
  | ask (call : Call) (next : call.Reply → Inquiry α)

namespace Inquiry

variable {α β : Type}

/-- An inquiry, and behind it another one that depends on what came of the first. -/
def bind : Inquiry α → (α → Inquiry β) → Inquiry β
  | .done (.ok a), f => f a
  | .done (.error fault), _ => .done (.error fault)
  | .ask call next, f => .ask call fun reply => (next reply).bind f

instance : Monad Inquiry where
  pure a := .done (.ok a)
  bind := bind

/-- All resources of a type. -/
def list (type : TypeRef) : Inquiry (List Resource) := .ask (.list type) pure

/-- The resource of a name. -/
def lookup (ref : ResourceRef) : Inquiry (Option Resource) := .ask (.lookup ref) pure

/-- How an inquiry goes on behind an answer. -/
def onward {call : Call} (next : call.Reply → Inquiry α) : Answer call.Reply → Inquiry α
  | .ok reply => next reply
  | .error fault => .done (.error fault)

/-- Asks everything by way of a session. -/
def access (registry : Registry) : Inquiry α → Access α
  | .done result => ExceptT.mk (Pure.pure result)
  | .ask call next => Access.ask registry call >>= fun reply => (next reply).access registry

@[simp] theorem access_pure (registry : Registry) (a : α) :
    (pure a : Inquiry α).access registry = pure a := rfl

@[simp] theorem access_list (registry : Registry) (type : TypeRef) :
    (list type).access registry = Access.list registry type :=
  bind_pure (Access.list registry type)

@[simp] theorem access_lookup (registry : Registry) (ref : ResourceRef) :
    (lookup ref).access registry = Access.lookup registry ref :=
  bind_pure (Access.lookup registry ref)

@[simp] theorem access_bind (registry : Registry) (x : Inquiry α) (f : α → Inquiry β) :
    (x >>= f).access registry = x.access registry >>= fun a => (f a).access registry := by
  change (x.bind f).access registry = _
  induction x with
  | done result => cases result <;> rfl
  | ask call next ih => simp only [bind, access, ih, bind_assoc]

end Inquiry

end Compliance
