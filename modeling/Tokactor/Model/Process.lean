import Tokactor.Model.Accept

/-!
# `process_message` and its scheduler

`process_message` (`executor.rs`) hands the message to `SendMessage::send` (`envelope.rs`),
which does its work at once or returns it as a future, the `Resolve`. Where that happens is up
to the scheduler of the message: `Blocking` calls `send` in `spawn_blocking` and drops what it
returns, `NonBlocking` awaits it. Below is that path for an actor whose code is given.
-/

namespace Tokactor

variable {A M : Type}

/-- `ExecutorLoop`. -/
inductive ExecutorLoop
  | continue_
  | break_
  deriving DecidableEq

/-- What the future of an `AsyncAsk` comes to. It borrows the actor, not the context. -/
inductive Output (A M : Type)
  | ready (a : A) (v : M)
  | panicked
  /-- it never ends -/
  | pending

/-- The code of an actor. A callback sees the actor and its context. -/
structure ActorCode (A M : Type) where
  preRun : Node A M → Usage A Unit
  /-- `Handler<M>` -/
  handle : M → Node A M → Usage A Unit
  /-- `Handler<DeadActorResult<_>>` -/
  dead : DeadActorResult A → Node A M → Usage A Unit
  /-- `Ask<M>` -/
  ask : M → Node A M → Usage A (AskResult M)
  /-- `AsyncAsk<M>`: the call of `handle`, and the future it returns -/
  asyncAsk : M → Node A M → Usage A Unit
  future : M → A → Output A M
  postRun : Node A M → Usage A Unit

/-- `process_message` does not return: something panics, or the future never ends. The node is
the actor as it was then. -/
inductive Stuck (A M : Type)
  | panicked (n : Node A M)
  | pending (n : Node A M)

/-- `Resolve`: nothing is left to do, or the answer to the ask `k` is a future. -/
inductive Resolve (M : Type)
  | ready
  | future (q : M) (k : ℕ)

/-- `SendMessage::scheduler`, `s` being the one that the actor has for its own messages. -/
def Body.scheduler (s : Scheduler) : Body A M → Scheduler
  | .await _ _ | .cancelled _ => .nonBlocking
  | _ => s

/-- The `Resolve` is dropped; a future goes unpolled, with the sender in it. -/
def Resolve.drop (n : Node A M) : Resolve M → Node A M
  | .ready => n
  | .future _ k => n.answer k .dropped

namespace ActorCode

variable (c : ActorCode A M)

/-- A callback runs. -/
def call {R : Type} (f : Node A M → Usage A R) (n : Node A M) : Except (Stuck A M) (Node A M × R) :=
  match n.perform fun _ _ => f n with
  | .error n => .error (.panicked n)
  | .ok r => .ok r

/-- The `Resolve` is awaited. (The race in the future is decided: the actor's own notifier is
not written while it handles a message.) -/
def await (n : Node A M) : Resolve M → Except (Stuck A M) (Node A M)
  | .ready => .ok n
  | .future q k =>
    match c.future q n.actor with
    | .ready a v => .ok ({ n with actor := a }.answer k (.replied v))
    | .panicked => .error (.panicked n)
    | .pending => .error (.pending n)

/-- `SendMessage::send`. -/
def send (n : Node A M) : Body A M → Except (Stuck A M) (Node A M × Resolve M)
  | .user q => do
    let (n, _) ← call (c.handle q) n
    return (n, .ready)
  | .dead r => do
    let (n, _) ← call (c.dead r) n
    return (n, .ready)
  | .ask q k => do
    let (n, result) ← call (c.ask q) n
    return (n.answerWith k result, .ready)
  | .asyncAsk q k _ => do
    let (n, _) ← call (c.asyncAsk q) n
    return (n, .future q k)
  | .await stopNow w => return (if stopNow then n.subscribeAndStop w else n.subscribeAndWait w, .ready)
  | .cancelled _ => return (n, .ready)

/-- The two arms of `process_message`. -/
def schedule (s : Scheduler) (n : Node A M) (r : Resolve M) : Except (Stuck A M) (Node A M) :=
  match s with
  | .blocking => .ok (r.drop n)
  | .nonBlocking => c.await n r

/-- `process_message`, in the part `p` of a life. -/
def processMessage (s : Scheduler) (n : Node A M) (p : Phase) (m : Mail A M) :
    Except (Stuck A M) (Node A M × ExecutorLoop) := do
  let (n, _) ← call c.preRun (n.call (.preRun p m) .preRun)
  let (n, r) ← c.send (n.call (.handle p m) (.handle m)) m.body
  let n ← c.schedule (m.body.scheduler s) n r
  let (n, _) ← call c.postRun (n.handled p)
  return (n, if n.state = .running then .continue_ else .break_)

end ActorCode

end Tokactor
