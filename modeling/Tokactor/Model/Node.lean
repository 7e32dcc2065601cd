import Tokactor.Model.Task

/-!
# One actor

`Node` is an actor with everything that hangs on it: the `Executor` (the actor value
and where its code stands, `Pc`), the `Ctx` (mailbox, notifier, state, permits,
overflow counter, stored sender), the tasks it has started, and the callers that wait
for it or for an answer. Below are the operations of `Ctx` and the parts of
`Executor` that run without waiting.
-/

namespace Tokactor

/-- The three parts of a life in which messages are handled: the main loop, the loop
of `stopping`, and the drain of `stop`. -/
inductive Phase
  | main
  | stopping
  | stopped
  deriving DecidableEq

/-- Why a task of the executor panicked. -/
inductive Cause
  /-- user code, or a `spawn` in a context that is not running -/
  | callback
  /-- `timeout_counter` reached 10 -/
  | timeout
  /-- the assertion at the head of `stop` -/
  | assertion
  /-- `Supervisor died before child` -/
  | supervisor
  deriving DecidableEq

/-- Where the executor stands. In the constructors named after a callback that callback
is running. -/
inductive Pc (A M : Type)
  | onStart
  /-- `mailbox.recv().await` of `run_actor` -/
  | recv
  /-- at the call of `check_anonymous_actors`; `run_actor` holds a message there -/
  | check (hand : Option (Mail A M))
  /-- in `acquire_many(k)`; the overflow counter becomes `rest` afterwards -/
  | acquire (hand : Option (Mail A M)) (k rest : ℕ)
  /-- the `select!` of `handle_supervised_message` -/
  | select
  /-- at the call of `process_message` -/
  | process (p : Phase) (m : Mail A M)
  | preRun (p : Phase) (m : Mail A M)
  | handle (p : Phase) (m : Mail A M)
  /-- the future of an `AsyncResponse` is awaited; its receiver saw `seen` -/
  | future (p : Phase) (m : Mail A M) (seen : Bool)
  /-- that future lost to `rx.changed()`; `AnonymousTaskCancelled::Cancel` is being sent -/
  | cancelling (p : Phase) (m : Mail A M)
  | postRun (p : Phase)
  | onStopping
  /-- the first `notifier.is_closed()` of `stopping` -/
  | isClosed
  /-- `notifier.send(Some(Shutdown))` -/
  | notify
  /-- the `select!` of `stopping` -/
  | wait
  /-- the `notifier.is_closed()` at the end of the loop of `stopping` -/
  | recheck
  | onStopped
  /-- the assertion at the head of `stop` -/
  | assertClosed
  /-- `mailbox.try_recv()` -/
  | drain
  | onEnd
  /-- `shutdown` has returned -/
  | returned
  /-- the awaiter of a supervised actor has the actor -/
  | handed
  /-- the wrapper reports the actor to the supervisor -/
  | reporting
  /-- `run_actor` is over -/
  | done
  | panicked (c : Cause)

/-- The message the executor holds. -/
def Pc.hand {A M : Type} : Pc A M → Option (Mail A M)
  | .check hand | .acquire hand _ _ => hand
  | .process _ m | .preRun _ m | .handle _ m | .future _ m _ | .cancelling _ m => some m
  | _ => none

/-- What the type of an actor fixes, and whether it runs under a supervisor. -/
structure Config where
  mailboxSize : ℕ
  maxAnonymousActors : ℕ
  supervised : Bool
  /-- the addresses a `CtxBuilder` has made -/
  forwarders : List FwdKind := []

structure Node (A M : Type) where
  cfg : Config
  actor : A
  pc : Pc A M
  mailbox : Chan (Mail A M)
  /-- the notifier holds `Some(Shutdown)` -/
  shutdown : Bool
  /-- the notifier was dropped -/
  dropped : Bool
  state : ActorState
  /-- available permits of `max_anonymous_actors` -/
  permits : ℕ
  /-- `overflow_anonymous_actors` -/
  overflow : ℕ
  /-- `into_future_sender` -/
  sender : Option ℕ
  timeoutCounter : ℕ
  tasks : List (Slot A M)
  awaits : List (Await A)
  asks : List (Reply M)
  trace : List (Event A M)

namespace Node

variable {A M : Type}

/-- `Ctx::new`, the addresses of the builder, and the executor before `on_start`. -/
def init (cfg : Config) (a : A) : Node A M where
  cfg := cfg
  actor := a
  pc := .onStart
  mailbox := Chan.new cfg.mailboxSize
  shutdown := false
  dropped := false
  state := .running
  permits := cfg.maxAnonymousActors
  overflow := 0
  sender := none
  timeoutCounter := 0
  tasks := cfg.forwarders.map fun kind =>
    ⟨.fwd { kind := kind, chan := Chan.new cfg.mailboxSize, pc := .select }, []⟩
  awaits := []
  asks := []
  trace := [.onStart]

/-- `notifier.is_closed()`: no receiver is left. (The receiver of an `AsyncResponse`
lives only while the executor awaits that future, so never when this is read.) -/
def isClosed (n : Node A M) : Bool := n.tasks.all fun s => !s.task.rx

/-! ## `Ctx` -/

/-- `ActorContext::stop`. -/
def stop (n : Node A M) : Node A M :=
  if n.state = .running then { n with state := .stopping } else n

/-- `ActorContext::abort`. -/
def abort (n : Node A M) : Node A M :=
  match n.state with
  | .running | .stopping => { n with mailbox := n.mailbox.close, state := .stopped }
  | .stopped => n

/-- Store the sender `w`; a sender stored before is dropped. -/
def storeSender (n : Node A M) (w : ℕ) : Node A M :=
  { n with
    awaits := match n.sender with
      | some w' => n.awaits.modify w' Await.dropSender
      | none => n.awaits
    sender := some w }

/-- `subscribe_and_stop`. -/
def subscribeAndStop (n : Node A M) (w : ℕ) : Node A M := (n.storeSender w).stop

/-- `subscribe_and_wait`. -/
def subscribeAndWait (n : Node A M) (w : ℕ) : Node A M := n.storeSender w

/-- `acquire_anonymous_permit`: whether the new task is tracked. -/
def acquireAnonymousPermit (n : Node A M) : Node A M × Bool :=
  match n.permits with
  | k + 1 => ({ n with permits := k }, true)
  | 0 => ({ n with overflow := n.overflow + 1 }, false)

/-- `anonymous`, `anonymous_task` and `anonymous_handle`. -/
def anonymous (n : Node A M) (kind : AnonKind) : Node A M :=
  let (n, tracked) := n.acquireAnonymousPermit
  { n with tasks := n.tasks ++ [⟨.anon { kind, tracked, halted := false, pc := kind.start }, []⟩] }

/-! ## `Executor` -/

/-- Decide the ask `k`. -/
def answer (n : Node A M) (k : ℕ) (r : Reply M) : Node A M := { n with asks := n.asks.set k r }

/-- The callback of `pc` is called. -/
def call (n : Node A M) (pc : Pc A M) (e : Event A M) : Node A M :=
  { n with pc := pc, trace := n.trace ++ [e] }

/-- The sender inside a message is dropped with it. -/
def dropMail (n : Node A M) (m : Mail A M) : Node A M :=
  match m.body with
  | .await _ w => { n with awaits := n.awaits.modify w Await.dropSender }
  | .ask _ k | .asyncAsk _ k _ => n.answer k .dropped
  | _ => n

/-- A panic unwinds the executor: its context is dropped, with the stored sender, the
message at hand and the messages still queued. -/
def unwind (n : Node A M) (c : Cause) : Node A M :=
  let n' := (n.pc.hand.toList ++ n.mailbox.queue).foldl dropMail n
  { n' with
    pc := .panicked c
    mailbox := n.mailbox.close
    dropped := true
    sender := none
    awaits := match n.sender with
      | some w => n'.awaits.modify w Await.dropSender
      | none => n'.awaits }

end Node

end Tokactor
