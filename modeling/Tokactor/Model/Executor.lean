import Mathlib.Algebra.Group.Nat.Defs
import Tokactor.Model.Node

/-!
# The executor and its environment

`Node.exec` is the code of `executor.rs`, cut at every point where another task can
come between: one step of `run_actor`, `run_supervised_actor` or one of the functions
they call. A callback is arbitrary code: between its call and its return it may use
the context in any way and any number of times, and it leaves any actor value.

`Node.step` adds the rest of the world: senders, the tasks of the actor, and callers
that wait for it. It is defined exactly when the label is possible.
-/

namespace Tokactor

variable {A M : Type}

/-- What user code can do with `&mut Ctx`. (A message it sends to any address,
its own included, is a `Label.send`.) -/
inductive CtxOp
  | stop
  | abort
  /-- `spawn` or `spawn_with`; the child is actor number `id` -/
  | spawn (id : ℕ)
  | anonymous
  | anonymousTask
  | anonymousHandle

/-- What the executor does next. -/
inductive Act (A M : Type)
  /-- the callback uses the context -/
  | op (o : CtxOp)
  /-- the callback returns -/
  | ret (a : A)
  /-- `Ask::handle` returns `AskResult::Reply(v)`, or the future of an `AsyncAsk` yields `v` -/
  | reply (a : A) (v : M)
  /-- `Ask::handle` returns `AskResult::Task` of the handle of task `h` -/
  | task (a : A) (h : ℕ)
  /-- the callback panics -/
  | panic
  /-- the receive yields a message, or `None` -/
  | recv
  | none
  /-- the supervisor's notifier holds an unseen `Shutdown`, or was dropped -/
  | shutdown
  | died
  /-- one second has passed in the `select!` of `stopping` -/
  | tick
  /-- the future of an `AsyncResponse` loses to its receiver -/
  | changed
  /-- the only thing the code can do here -/
  | go

/-- A message somebody sends: through `ActorRef::send` and its variants, `ask`,
`async_ask`, or by awaiting the address. -/
inductive Request (M : Type)
  | user (m : M)
  | ask (m : M)
  | asyncAsk (m : M) (s : Scheduler)
  | await (stopNow : Bool)

inductive Label (A M : Type)
  /-- a request enters the mailbox -/
  | send (r : Request M)
  /-- an await request fails to -/
  | refuse
  /-- an awaiting caller takes what its channel holds, or drops its future -/
  | poll (w : ℕ)
  | giveUp (w : ℕ)
  | exec (x : Act A M)
  | task (k : ℕ) (l : TaskLabel A M)
  /-- the `reply` task `i` gets the output of the handle task `h` it joins -/
  | join (i h : ℕ)
  /-- the owner of the context of an ended actor drops it -/
  | dropCtx

/-- `check_anonymous_actors`: how many permits it acquires, as `u32`, and the overflow
that is left afterwards; `none` when it does not wait. -/
def checkAnonymousActors (max avaliable overflow : ℕ) : Option (ℕ × ℕ) :=
  if avaliable = 0 ∧ overflow > 0 then
    if overflow < max then some (overflow % 2 ^ 32, 0)
    else some (max % 2 ^ 32, overflow - max)
  else if overflow > 0 then
    let running := max - avaliable
    if overflow < running then some (overflow % 2 ^ 32, 0)
    else some (running % 2 ^ 32, overflow - running)
  else none

namespace Node

/-! ## Callbacks -/

/-- An operation of user code on the context. -/
def ctxOp (n : Node A M) : CtxOp → Node A M
  | .stop => n.stop
  | .abort => n.abort
  | .spawn id =>
    if n.state = .running then
      { n with tasks := n.tasks ++ [⟨.child { id := id, pc := .running }, []⟩] }
    else n.unwind .callback
  | .anonymous => n.anonymous .anonymous
  | .anonymousTask => n.anonymous .task
  | .anonymousHandle => n.anonymous .handle

/-- User code runs; `k` is what follows when it returns. -/
def callback (n : Node A M) (x : Act A M) (k : Node A M → Node A M) : Option (Node A M) :=
  match x with
  | .op o => some (n.ctxOp o)
  | .ret a => some (k { n with actor := a })
  | .panic => some (n.unwind .callback)
  | _ => none

/-! ## The main loops -/

/-- Back to the head of the loop of `run_actor` or `run_supervised_actor`. -/
def mainLoop (n : Node A M) : Node A M :=
  { n with pc := if n.cfg.supervised then .check none else .recv }

/-- `shutdown` up to `on_stopping`. -/
def shutdownStart (n : Node A M) : Node A M :=
  { n with state := .stopping }.call .onStopping .onStopping

/-- A receive from the mailbox: `k` follows a message, `e` follows `None`. -/
def receive (n : Node A M) (x : Act A M) (k : Mail A M → Node A M → Node A M) (e : Node A M → Node A M) :
    Option (Node A M) :=
  match x with
  | .recv => n.mailbox.pop.map fun p => k p.1 { n with mailbox := p.2 }
  | .none =>
    match n.mailbox.queue, n.mailbox.closed with
    | [], true => some (e n)
    | _, _ => none
  | _ => none

/-- What follows `check_anonymous_actors` in the two loops. -/
def passCheck (n : Node A M) : Option (Mail A M) → Node A M
  | some m => { n with pc := .process .main m }
  | none => { n with pc := .select }

/-- `check_anonymous_actors` up to its wait. -/
def checkStep (n : Node A M) (hand : Option (Mail A M)) : Node A M :=
  match checkAnonymousActors n.cfg.maxAnonymousActors n.permits n.overflow with
  | none => n.passCheck hand
  | some (k, rest) => { n with pc := .acquire hand k rest }

/-- `handle_supervised_message`. -/
def handleSupervisedMessage (n : Node A M) (x : Act A M) : Option (Node A M) :=
  match x with
  | .shutdown => some n.shutdownStart
  | .died => some (n.unwind .supervisor)
  | x => n.receive x (fun m n => { n with pc := .process .main m }) shutdownStart

/-! ## `process_message` -/

/-- After `post_run`: the caller of `process_message` goes on. -/
def processed (n : Node A M) : Phase → Node A M
  | .main => if n.state = .running then n.mainLoop else n.shutdownStart
  | .stopping => { n with pc := .recheck }
  | .stopped => { n with pc := .drain }

/-- The message is dealt with; `post_run` is called. -/
def handled (n : Node A M) (p : Phase) : Node A M := n.call (.postRun p) .postRun

/-- `AskResult::Task`: `Response::send` starts the task that answers. -/
def replyTask (n : Node A M) (k h : ℕ) : Node A M := n.anonymous (.reply k h)

/-- `SendMessage::send` of the message at hand. -/
def deliver (n : Node A M) (p : Phase) (m : Mail A M) (x : Act A M) : Option (Node A M) :=
  match m.body with
  | .user _ | .dead _ => n.callback x (handled · p)
  | .ask _ k =>
    match x with
    | .reply a v => some (({ n with actor := a }.answer k (.replied v)).handled p)
    | .task a h => some (({ n with actor := a }.replyTask k h).handled p)
    | .op o => some (n.ctxOp o)
    | .panic => some (n.unwind .callback)
    | _ => none
  | .asyncAsk _ k s =>
    n.callback x fun n =>
      match s with
      | .nonBlocking => { n with pc := .future p m n.shutdown }
      -- `spawn_blocking` drops the future unpolled, and `tx` with it
      | .blocking => (n.answer k .dropped).handled p
  | .await stopNow w =>
    match x with
    | .go => some ((if stopNow then n.subscribeAndStop w else n.subscribeAndWait w).handled p)
    | _ => none
  | .cancelled _ =>
    match x with
    | .go => some (n.handled p)
    | _ => none

/-- The future of an `AsyncResponse`, raced against the actor's own notifier. -/
def resolve (n : Node A M) (p : Phase) (m : Mail A M) (seen : Bool) (x : Act A M) : Option (Node A M) :=
  match x, m.body with
  | .reply a v, .asyncAsk _ k _ => some (({ n with actor := a }.answer k (.replied v)).handled p)
  | .changed, _ => if n.shutdown = seen then none else some { n with pc := .cancelling p m }
  | .panic, _ => some (n.unwind .callback)
  | _, _ => none

/-- The lost race: `internal_send_async(Cancel)`, then `tx` is dropped. -/
def cancelFuture (n : Node A M) (p : Phase) (m : Mail A M) (x : Act A M) : Option (Node A M) :=
  match x with
  | .go =>
    if n.mailbox.closed then some ((n.dropMail m).handled p)
    else (n.mailbox.push ⟨none, .cancelled .cancel⟩).map fun c =>
      ({ n with mailbox := c }.dropMail m).handled p
  | _ => none

/-! ## `shutdown` -/

/-- `stopping` returns: the mailbox is closed and `on_stopped` called. -/
def stoppingDone (n : Node A M) : Node A M :=
  { n with mailbox := n.mailbox.close, state := .stopped }.call .onStopped .onStopped

/-- The loop of `stopping`. -/
def stoppingLoop (n : Node A M) (x : Act A M) : Option (Node A M) :=
  match x with
  | .tick =>
    if n.timeoutCounter = 10 then some (n.unwind .timeout)
    else some { n with timeoutCounter := n.timeoutCounter + 1, pc := .recheck }
  | x => n.receive x (fun m n => { n with pc := .process .stopping m }) fun n => { n with pc := .recheck }

/-- The drain of `stop`; `try_recv` fails on an empty queue. -/
def drainStep (n : Node A M) (x : Act A M) : Option (Node A M) :=
  match x with
  | .recv => n.mailbox.pop.map fun p => { n with mailbox := p.2, pc := .process .stopped p.1 }
  | .none =>
    match n.mailbox.queue with
    | [] => some (n.call .onEnd .onEnd)
    | _ => none
  | _ => none

/-- The code after `shutdown`: in `run_actor`, and in the wrapper of `spawn_with` for a
supervised actor. -/
def finish (n : Node A M) : Node A M :=
  let n' := { n with sender := none }
  if n.cfg.supervised then
    match n.sender with
    | none => { n' with pc := .reporting }
    | some w =>
      match n.awaits[w]? with
      | some .waiting => { n' with awaits := n.awaits.modify w (Await.send n.actor), pc := .handed, dropped := true }
      | _ => { n' with pc := .reporting }
  else
    { n' with
      awaits := match n.sender with
        | some w => n.awaits.modify w (Await.send n.actor)
        | none => n.awaits
      pc := .done
      dropped := true }

/-- One step of the executor. -/
def exec (n : Node A M) (x : Act A M) : Option (Node A M) :=
  match n.pc with
  | .onStart => n.callback x mainLoop
  | .recv => n.receive x (fun m n => { n with pc := .check (some m) }) shutdownStart
  | .check hand =>
    match x with
    | .go => some (n.checkStep hand)
    | _ => none
  | .acquire hand k rest =>
    match x with
    | .go => if k ≤ n.permits then some ({ n with overflow := rest }.passCheck hand) else none
    | _ => none
  | .select => n.handleSupervisedMessage x
  | .process p m =>
    match x with
    | .go => some (n.call (.preRun p m) .preRun)
    | _ => none
  | .preRun p m => n.callback x fun n => n.call (.handle p m) (.handle m)
  | .handle p m => n.deliver p m x
  | .future p m seen => n.resolve p m seen x
  | .cancelling p m => n.cancelFuture p m x
  | .postRun p => n.callback x (processed · p)
  | .onStopping => n.callback x fun n => { n with pc := .isClosed }
  | .isClosed =>
    match x with
    | .go => some (if n.isClosed then n.stoppingDone else { n with pc := .notify })
    | _ => none
  -- `send` changes nothing when there is no receiver
  | .notify =>
    match x with
    | .go => some { n with shutdown := n.shutdown || !n.isClosed, timeoutCounter := 0, pc := .wait }
    | _ => none
  | .wait => n.stoppingLoop x
  | .recheck =>
    match x with
    | .go => some (if n.isClosed then n.stoppingDone else { n with pc := .wait })
    | _ => none
  | .onStopped => n.callback x fun n => { n with pc := .assertClosed }
  | .assertClosed =>
    match x with
    | .go => some (if n.isClosed then { n with pc := .drain } else n.unwind .assertion)
    | _ => none
  | .drain => n.drainStep x
  | .onEnd => n.callback x fun n => n.call .returned (.ended n.actor)
  | .returned =>
    match x with
    | .go => some n.finish
    | _ => none
  | .handed | .reporting | .done | .panicked _ => none

/-! ## Everybody else -/

/-- What the tasks of the actor see of it. -/
def view (n : Node A M) : View where
  closed := n.mailbox.closed
  shutdown := n.shutdown
  dropped := n.dropped
  nextAsk := n.asks.length
  answered k := match n.asks[k]? with
    | some .pending => false
    | _ => true

/-- Somebody's send is accepted. -/
def send (n : Node A M) (r : Request M) : Option (Node A M) :=
  let put (b : Body A M) (f : Node A M → Node A M) :=
    (n.mailbox.push ⟨none, b⟩).map fun c => f { n with mailbox := c }
  match r with
  | .user m => put (.user m) id
  | .ask m => put (.ask m n.asks.length) fun n => { n with asks := n.asks ++ [.pending] }
  | .asyncAsk m s => put (.asyncAsk m n.asks.length s) fun n => { n with asks := n.asks ++ [.pending] }
  | .await stopNow =>
    put (.await stopNow n.awaits.length) fun n => { n with awaits := n.awaits ++ [.waiting] }

/-- The message of a task enters the mailbox. -/
def emit (n : Node A M) (k : ℕ) : Option (Body A M) → Option (Node A M)
  | none => some n
  | some b => (n.mailbox.push ⟨some k, b⟩).map fun c => { n with mailbox := c }

/-- The rest of what a task's step does to the actor. -/
def absorb (n : Node A M) (e : Eff A M) : Node A M :=
  let n := if e.newAsk then { n with asks := n.asks ++ [.pending] } else n
  let n := if e.release then { n with permits := n.permits + 1 } else n
  match e.answer with
  | some (k, r) => n.answer k r
  | none => n

/-- A step of task `k`. -/
def taskStep (n : Node A M) (k : ℕ) (l : TaskLabel A M) : Option (Node A M) :=
  match n.tasks[k]? with
  | none => none
  | some s =>
    match s.task.step n.view l with
    | none => none
    | some (t, e) =>
      (n.emit k e.push).map fun n' =>
        { n'.absorb e with tasks := n.tasks.set k ⟨t, s.out ++ e.push.toList⟩ }

/-- A running `reply` task waits for the handle of task `h`. -/
def joined (n : Node A M) (h : ℕ) : Bool :=
  n.tasks.any fun s =>
    match s.task with
    | .anon { kind := .reply _ h', pc := .running, .. } => h' == h
    | _ => false

/-- `future.await` in the task of `Response::send`. A cancelled or panicked handle
makes it tell the actor `Cancel` before it ends without an answer. -/
def join (n : Node A M) (i h : ℕ) : Option (Node A M) :=
  match n.tasks[i]?.map Slot.task, n.tasks[h]?.map Slot.task with
  | some (.anon { kind := .reply _ h', pc := .running, .. }), some (.anon { kind := .handle, pc, .. }) =>
    if h' = h then
      match pc with
      | .returned (some v) => (n.taskStep h (.anon .take)).bind (·.taskStep i (.anon (.finish v)))
      | .returned none => (n.taskStep h (.anon .take)).bind (·.taskStep i (.anon .lost))
      | .done => n.taskStep i (.anon .lost)
      | _ => none
    else none
  | _, _ => none

/-- Steps of a task that are not its own: those of `join`, and taking an output that a
`reply` task waits for. -/
def bound (n : Node A M) (k : ℕ) : TaskLabel A M → Bool
  | .anon (.finish _) =>
    match n.tasks[k]?.map Slot.task with
    | some (.anon { kind := .reply _ _, .. }) => true
    | _ => false
  | .anon .lost => true
  | .anon .take => n.joined k
  | _ => false

/-- An awaiting caller takes the actor out of its channel. -/
def poll (n : Node A M) (w : ℕ) : Option (Node A M) :=
  match n.awaits[w]? with
  | some (.sent a) => some { n with awaits := n.awaits.set w (.received a) }
  | _ => none

/-- An awaiting caller drops its future. -/
def giveUp (n : Node A M) (w : ℕ) : Option (Node A M) :=
  match n.awaits[w]? with
  | some .waiting | some (.sent _) | some .dropped => some { n with awaits := n.awaits.set w .gone }
  | _ => none

def step (n : Node A M) : Label A M → Option (Node A M)
  | .send r => n.send r
  | .refuse => if n.mailbox.closed then some { n with awaits := n.awaits ++ [.refused] } else none
  | .poll w => n.poll w
  | .giveUp w => n.giveUp w
  | .exec x => n.exec x
  | .task k l => if n.bound k l then none else n.taskStep k l
  | .join i h => n.join i h
  | .dropCtx =>
    match n.pc with
    | .reporting => some { n with dropped := true }
    | _ => none

end Node

end Tokactor
