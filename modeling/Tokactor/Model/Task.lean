import Tokactor.Model.Message

/-!
# The tasks that hang on an actor

Every task below was given the actor's address and a receiver of its notifier:

* `Child`: the wrapper task of `Ctx::spawn_with` around a supervised child;
* `Anon`: the tasks of `Ctx::anonymous`, `Ctx::anonymous_task`,
  `Ctx::anonymous_handle` and the `anonymous_task` that `Response::send` starts for
  an `AskResult::Task`;
* `Fwd`: the forwarders of `CtxBuilder` addresses
  (`Executor::child_with_custom_handle_rx` and the two ask variants).

A task steps by itself. What a step does to the actor is its `Eff`: a message put in
the mailbox, a permit given back, an asker answered.
-/

namespace Tokactor

/-- What a task sees of its actor: the mailbox is closed, the notifier holds
`Some(Shutdown)`, the notifier was dropped, the number the next ask gets, and which
asks are decided. -/
structure View where
  closed : Bool
  shutdown : Bool
  dropped : Bool
  nextAsk : ℕ
  answered : ℕ → Bool

/-- What a step of a task does to its actor. -/
structure Eff (A M : Type) where
  /-- the message it puts in the mailbox -/
  push : Option (Body A M) := none
  /-- that message is a new ask -/
  newAsk : Bool := false
  /-- a permit goes back to the semaphore -/
  release : Bool := false
  /-- an ask is decided -/
  answer : Option (ℕ × Reply M) := none

/-! ## Supervised children -/

/-- How `run_supervised_actor`'s task ended: its actor was handed to an awaiter, it
goes to the supervisor, or the task failed. -/
inductive Outcome (A : Type)
  | handed
  | dead (a : A)
  | failed (e : ChildError)

/-- The wrapper task of `spawn_with`. In `handed` and `reported` the flag says that
the executor's receiver has not been dropped yet. -/
inductive ChildPc (A : Type)
  /-- `tokio::spawn(executor.run_supervised_actor()).await` -/
  | running
  | handed (rx : Bool)
  /-- `supervisor.send_async(Ok(dead_actor))` -/
  | reporting (a : A)
  | reported (a : A) (rx : Bool)
  /-- `supervisor.send_async(DeadActor::panic(err))`, or `cancelled` -/
  | failing (e : ChildError)
  /-- the error was sent, and the mailbox took it or not -/
  | failed (e : ChildError) (accepted : Bool)
  /-- the `unreachable!` of the first send -/
  | crashed (a : A)

/-- A child: its own number among all actors, and its wrapper. -/
structure Child (A : Type) where
  id : ℕ
  pc : ChildPc A

inductive ChildLabel (A : Type)
  | ended (o : Outcome A)
  | send
  | refused
  | drop

/-- The wrapper task of `spawn_with`. In the `Ok` arm the receiver lives in the
executor and then in `_rx`, until the report is sent. In the `Err` arm the executor was
unwound with its receiver before the wrapper runs. -/
def Child.step {A M : Type} (v : View) (c : Child A) : ChildLabel A → Option (Child A × Eff A M)
  | .ended o =>
    match c.pc with
    | .running => some ({ c with pc := match o with
        | .handed => .handed true
        | .dead a => .reporting a
        | .failed e => .failing e }, {})
    | _ => none
  | .send =>
    match c.pc with
    | .reporting a => some ({ c with pc := .reported a true }, { push := some (.dead (.ok a)) })
    | .failing e => some ({ c with pc := .failed e true }, { push := some (.dead (.error e)) })
    | _ => none
  | .refused =>
    if v.closed then
      match c.pc with
      | .reporting a => some ({ c with pc := .crashed a }, {})
      | .failing e => some ({ c with pc := .failed e false }, {})
      | _ => none
    else none
  | .drop =>
    match c.pc with
    | .handed true => some ({ c with pc := .handed false }, {})
    | .reported a true => some ({ c with pc := .reported a false }, {})
    | _ => none

/-- The child's receiver of the notifier is alive. -/
def Child.rx {A : Type} (c : Child A) : Bool :=
  match c.pc with
  | .running | .reporting _ => true
  | .handed rx | .reported _ rx => rx
  | .failing _ | .failed _ _ | .crashed _ => false

/-! ## Anonymous actors -/

/-- Which spawner started the task. A `reply` task answers the ask `k` with what the
task `h` of an `anonymous_handle` yields. -/
inductive AnonKind
  | anonymous
  | task
  | handle
  | reply (k h : ℕ)

inductive AnonPc (A M : Type)
  /-- the wrapper has not been polled; it owns the `AnonymousActor` -/
  | queued
  /-- `actor.handle(future)` is spawned and not polled -/
  | fresh
  /-- in the `select!` of `AnonymousActor::handle` -/
  | running
  /-- the `AnonymousActor` with its result waits in the join handle -/
  | returned (out : Option M)
  /-- the inner task panicked -/
  | crashed
  /-- the wrapper sends `b` to the actor -/
  | sending (b : Body A M)
  /-- that send is over -/
  | sent (b : Body A M)
  /-- only the permit is left -/
  | closing
  | done

/-- Where a task starts: a handle has no wrapper around its task. -/
def AnonKind.start {A M : Type} : AnonKind → AnonPc A M
  | .handle => .fresh
  | _ => .queued

/-- An anonymous actor. `tracked`: it was started with a permit. `halted`: its wrapper
was aborted while the inner task went on. -/
structure Anon (A M : Type) where
  kind : AnonKind
  tracked : Bool
  halted : Bool
  pc : AnonPc A M

inductive AnonLabel (M : Type)
  | spawn
  | poll
  | finish (out : M)
  | lost
  | cancel
  | panic
  | wake
  | send
  | refused
  | drop
  | release
  | halt
  | take

/-- The asker of a `reply` task, with what it gets: `tx` is dropped with the future
unless the future sent through it. -/
def Anon.answer {A M : Type} (a : Anon A M) (out : Option M) : Option (ℕ × Reply M) :=
  match a.kind with
  | .reply k _ => some (k, match out with | some v => .replied v | none => .dropped)
  | _ => none

/-- `AnonymousActor::handle` returns with `out`. A handle's permit goes when its only
task ends; a halted task's output has nowhere to go. -/
def Anon.finished {A M : Type} (a : Anon A M) (out : Option M) : Anon A M × Eff A M :=
  if a.halted then ({ a with pc := .done }, { answer := a.answer out })
  else
    match a.kind with
    | .handle => ({ a with pc := .returned out }, { release := a.tracked })
    | _ => ({ a with pc := .returned out }, { answer := a.answer out })

/-- The inner task unwinds, dropping the receiver. -/
def Anon.unwind {A M : Type} (a : Anon A M) : Anon A M × Eff A M :=
  if a.halted then ({ a with pc := .done }, { answer := a.answer none })
  else
    match a.kind with
    | .handle => ({ a with pc := .done }, { release := a.tracked })
    | _ => ({ a with pc := .crashed }, { answer := a.answer none })

/-- What the wrapper tells the actor when the inner task is over. -/
def Anon.report {A M : Type} (a : Anon A M) (out : Option (Option M)) : Body A M :=
  match a.kind, out with
  | .anonymous, some (some m) => .user m
  | .anonymous, some none => .cancelled .cancel
  | .anonymous, none => .cancelled .panic
  | _, _ => .cancelled .success

def Anon.step {A M : Type} (v : View) (a : Anon A M) : AnonLabel M → Option (Anon A M × Eff A M)
  | .spawn =>
    match a.pc with
    | .queued => some ({ a with pc := .fresh }, {})
    | _ => none
  | .poll =>
    match a.pc with
    -- `borrow_and_update().is_some()`: the future is never polled
    | .fresh => some (if v.shutdown then a.finished none else ({ a with pc := .running }, {}))
    | _ => none
  | .finish out =>
    match a.pc with
    | .running => some (a.finished (some out))
    | _ => none
  -- a `reply` task whose handle yields nothing tells the actor `Cancel` and ends
  | .lost =>
    match a.kind, a.pc with
    | .reply _ _, .running =>
      let p := a.finished none
      some (p.1, { p.2 with push := if v.closed then none else some (.cancelled .cancel) })
    | _, _ => none
  | .cancel =>
    match a.pc with
    | .running => if v.shutdown || v.dropped then some (a.finished none) else none
    | _ => none
  | .panic =>
    match a.pc with
    | .running => some a.unwind
    | _ => none
  | .wake =>
    match a.kind, a.pc with
    | .handle, _ => none
    | _, .returned out => some ({ a with pc := .sending (a.report (some out)) }, {})
    | _, .crashed => some ({ a with pc := .sending (a.report none) }, {})
    | _, _ => none
  | .send =>
    match a.pc with
    | .sending b => some ({ a with pc := .sent b }, { push := some b })
    | _ => none
  | .refused =>
    match a.pc with
    | .sending b => if v.closed then some ({ a with pc := .sent b }, {}) else none
    | _ => none
  | .drop =>
    match a.pc with
    | .sent _ => some ({ a with pc := .closing }, {})
    | _ => none
  | .release =>
    match a.pc with
    | .closing => some ({ a with pc := .done }, { release := a.tracked })
    | _ => none
  -- `AnonymousRef::halt` aborts the wrapper; an inner task it waited for is detached
  | .halt =>
    match a.kind, a.halted, a.pc with
    | .handle, _, _ | _, true, _ | _, _, .done => none
    | _, _, .queued => some ({ a with pc := .done }, { release := a.tracked, answer := a.answer none })
    | _, _, .fresh | _, _, .running => some ({ a with halted := true }, { release := a.tracked })
    | _, _, _ => some ({ a with pc := .done }, { release := a.tracked })
  -- the owner of an `AsyncHandle` takes or drops the output
  | .take =>
    match a.kind, a.pc with
    | .handle, .returned _ => some ({ a with pc := .done }, {})
    | _, _ => none

/-- The task holds a receiver of the notifier. The wrapper of `anonymous` keeps the
`AnonymousActor` across its send; the one of `anonymous_task` drops it before. -/
def Anon.rx {A M : Type} (a : Anon A M) : Bool :=
  match a.pc with
  | .queued | .fresh | .running | .returned _ => true
  | .sending b | .sent b =>
    match a.kind, b with
    | .anonymous, .cancelled .panic => false
    | .anonymous, _ => true
    | _, _ => false
  | .crashed | .closing | .done => false

/-- The task holds a permit of the semaphore. -/
def Anon.permit {A M : Type} (a : Anon A M) : Bool :=
  a.tracked && !a.halted &&
    match a.kind, a.pc with
    | _, .done => false
    | .handle, .returned _ => false
    | _, _ => true

/-- The future is alive. -/
def Anon.live {A M : Type} (a : Anon A M) : Bool :=
  match a.pc with
  | .queued | .fresh | .running => true
  | _ => false

/-- The wrapper is in its send to the actor's mailbox. -/
def Anon.inSend {A M : Type} (a : Anon A M) : Bool :=
  match a.pc with
  | .sending _ => true
  | _ => false

/-! ## Forwarders of `CtxBuilder` addresses -/

/-- `sender`, `asker` or `ask_asyncer`. -/
inductive FwdKind
  | handle
  | ask
  | asyncAsk (s : Scheduler)

inductive FwdPc (M : Type)
  /-- the `select!` -/
  | select
  /-- `parent.send_async(message)`, `parent.ask(message)` or `parent.async_ask(message)` -/
  | sending (m : M)
  /-- the answer of the ask `k` is awaited -/
  | asking (k : ℕ)
  /-- out of the loop, in `self.shutdown()` -/
  | leaving
  /-- `self` was dropped, and the receiver of the notifier with it; the queue is still open -/
  | left
  | done
  /-- `downcast_mut::<Envelope<M>>().unwrap()` on a refused `Response` -/
  | panicked

/-- A forwarder with the queue of its address. -/
structure Fwd (M : Type) where
  kind : FwdKind
  chan : Chan M
  pc : FwdPc M

inductive FwdLabel (M : Type)
  | push (m : M)
  | recv
  | none
  | shutdown
  | died
  | send
  | refused
  | answered
  | leave
  | close

/-- What is put in the actor's mailbox for `m`. -/
def FwdKind.body {A M : Type} (kind : FwdKind) (m : M) (k : ℕ) : Body A M :=
  match kind with
  | .handle => .user m
  | .ask => .ask m k
  | .asyncAsk s => .asyncAsk m k s

def FwdKind.isAsk : FwdKind → Bool
  | .handle => false
  | _ => true

def Fwd.step {A M : Type} (v : View) (f : Fwd M) : FwdLabel M → Option (Fwd M × Eff A M)
  -- `ActorSendRef::send`, `try_send` or the first half of an ask returns `Ok`
  | .push m => (f.chan.push m).map fun c => ({ f with chan := c }, {})
  | .recv =>
    match f.pc with
    | .select => f.chan.pop.map fun p => ({ f with chan := p.2, pc := .sending p.1 }, {})
    | _ => none
  -- every address was dropped
  | .none =>
    match f.pc, f.chan.queue with
    | .select, [] => some ({ f with chan := f.chan.close, pc := .leaving }, {})
    | _, _ => none
  | .shutdown =>
    match f.pc with
    | .select => if v.shutdown then some ({ f with pc := .leaving }, {}) else none
    | _ => none
  | .died =>
    match f.pc with
    | .select => if v.dropped then some ({ f with chan := f.chan.close, pc := .panicked }, {}) else none
    | _ => none
  | .send =>
    match f.pc with
    | .sending m => some ({ f with pc := if f.kind.isAsk then .asking v.nextAsk else .select },
        { push := some (f.kind.body m v.nextAsk), newAsk := f.kind.isAsk })
    | _ => none
  | .refused =>
    match f.pc with
    | .sending _ =>
      if v.closed then
        some (if f.kind.isAsk then { f with chan := f.chan.close, pc := .panicked }
          else { f with pc := .leaving }, {})
      else none
    | _ => none
  | .answered =>
    match f.pc with
    | .asking k => if v.answered k then some ({ f with pc := .select }, {}) else none
    | _ => none
  | .leave =>
    match f.pc with
    | .leaving => some ({ f with pc := .left }, {})
    | _ => none
  -- the function returns: the receiver of the queue is dropped with what is queued
  | .close =>
    match f.pc with
    | .left => some ({ f with chan := f.chan.close, pc := .done }, {})
    | _ => none

def Fwd.rx {M : Type} (f : Fwd M) : Bool :=
  match f.pc with
  | .left | .done | .panicked => false
  | _ => true

/-! ## One task of any kind -/

inductive Task (A M : Type)
  | child (c : Child A)
  | anon (a : Anon A M)
  | fwd (f : Fwd M)

inductive TaskLabel (A M : Type)
  | child (l : ChildLabel A)
  | anon (l : AnonLabel M)
  | fwd (l : FwdLabel M)

def Task.step {A M : Type} (v : View) : Task A M → TaskLabel A M → Option (Task A M × Eff A M)
  | .child c, .child l => (c.step v l).map fun p => (.child p.1, p.2)
  | .anon a, .anon l => (a.step v l).map fun p => (.anon p.1, p.2)
  | .fwd f, .fwd l => (f.step v l).map fun p => (.fwd p.1, p.2)
  | _, _ => none

/-- The task holds a receiver of the actor's notifier. -/
def Task.rx {A M : Type} : Task A M → Bool
  | .child c => c.rx
  | .anon a => a.rx
  | .fwd f => f.rx

/-- The task holds a permit of the actor's semaphore. -/
def Task.permit {A M : Type} : Task A M → Bool
  | .anon a => a.permit
  | _ => false

/-- The task is an anonymous actor whose future is alive. -/
def Task.live {A M : Type} : Task A M → Bool
  | .anon a => a.live
  | _ => false

/-- A task of the actor with the messages it has put in the mailbox so far. -/
structure Slot (A M : Type) where
  task : Task A M
  out : List (Body A M)

end Tokactor
