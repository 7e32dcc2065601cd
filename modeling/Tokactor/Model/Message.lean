import Tokactor.Lib.Chan

/-!
# Messages and life-cycle states

What travels through an actor's mailbox (`message.rs`, `envelope.rs`), the
life-cycle state of a context (`context.rs`) and the two kinds of one-shot channels
a caller waits on: the one of an `.await` on an address, and the one of an ask.

`A` is the type of the values of all actors, `M` that of all user messages and
replies.
-/

namespace Tokactor

/-- `ActorState`. -/
inductive ActorState
  | running
  | stopping
  | stopped
  deriving DecidableEq

/-- `AnonymousTaskCancelled`. -/
inductive AnonymousTaskCancelled
  | success
  | cancel
  | panic
  deriving DecidableEq

/-- `ChildError`. -/
inductive ChildError
  | panic
  | cancelled
  deriving DecidableEq

/-- `Scheduler`. -/
inductive Scheduler
  | blocking
  | nonBlocking
  deriving DecidableEq

/-- `DeadActorResult`: the final actor value of a child, or how its task failed. -/
abbrev DeadActorResult (A : Type) := Except ChildError A

/-- What a boxed `SendMessage` holds: an `Envelope` of a user message or of a
`DeadActorResult`, a `Response`, an `AsyncResponse`, or a `ConfidentialEnvelope` of an
`IntoFutureShutdown` or of an `AnonymousTaskCancelled`. One-shot senders are numbered. -/
inductive Body (A M : Type)
  | user (m : M)
  | ask (m : M) (k : ℕ)
  | asyncAsk (m : M) (k : ℕ) (s : Scheduler)
  | await (stopNow : Bool) (w : ℕ)
  | cancelled (c : AnonymousTaskCancelled)
  | dead (r : DeadActorResult A)

/-- A message in the mailbox. `src` names the task of this actor that sent it; it is
`none` for everybody else. The actor never reads it. -/
structure Mail (A M : Type) where
  src : Option ℕ
  body : Body A M

/-- `IntoFutureError`. -/
inductive IntoFutureError
  | mailboxClosed
  | paniced
  deriving DecidableEq

/-- The caller's side of `.await` or `wait_for_completion` on an address. -/
inductive Await (A : Type)
  /-- the request is queued or its sender is held by the actor -/
  | waiting
  /-- the mailbox was closed -/
  | refused
  /-- the actor was put in the one-shot channel -/
  | sent (a : A)
  /-- the caller has taken the actor -/
  | received (a : A)
  /-- the sender was dropped -/
  | dropped
  /-- the caller dropped its future -/
  | gone

/-- What the caller's future resolves to, once that is decided. -/
def Await.result {A : Type} : Await A → Option (Except IntoFutureError A)
  | .sent a | .received a => some (.ok a)
  | .dropped => some (.error .paniced)
  | .refused => some (.error .mailboxClosed)
  | .waiting | .gone => none

/-- `oneshot::Sender::send`: fails when the receiver is gone. -/
def Await.send {A : Type} (a : A) : Await A → Await A
  | .waiting => .sent a
  | w => w

/-- Dropping the sender. -/
def Await.dropSender {A : Type} : Await A → Await A
  | .waiting => .dropped
  | w => w

/-- The caller of an ask: waiting, answered, or its sender was dropped. -/
inductive Reply (M : Type)
  | pending
  | replied (v : M)
  | dropped

/-- The callbacks of an actor, as they are called. -/
inductive Event (A M : Type)
  | onStart
  | preRun
  | handle (m : Mail A M)
  | postRun
  | onStopping
  | onStopped
  | onEnd
  /-- `on_end` has returned and left the actor as `a` -/
  | ended (a : A)

end Tokactor
