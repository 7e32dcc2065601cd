import Tokactor.Model.Accept
import Tokactor.Model.Host

/-!
# The loop of an input

The event loop that `World::on_input` registers for a component, and what
`World::block_until_completion` does with its result (`world/mod.rs`). The component is any
implementation of `Component` (`io/mod.rs`); the one of the source is `TcpListener`
(`io/tcp.rs`).

* `ComponentImpl`: what polls of the futures of a component do.
* `EventLoop.step`: the loop, one poll at a time.
* `TcpListener.impl`: the router in its `RawExecutor` as a component.
-/

namespace Tokactor

/-- What a poll comes back with, if it does. -/
inductive Poll (α : Type)
  | pending
  | ready (x : α)
  | panic

/-- An implementation of `Component`: the component, its `Shutdown` future, what it accepts and
its errors. A label is what the world around decides. -/
structure ComponentImpl (C S K E L : Type) where
  /-- a poll of the future that `accept` returns -/
  accept : C → L → Option (C × Poll (Except E K))
  shutdown : C → S
  /-- a poll of the future that `shutdown` returns -/
  poll : S → L → Option (S × Poll Unit)
  /-- what happens to the component between two polls -/
  outside : C → L → Option C
  outsideShutdown : S → L → Option S

/-- `broadcast::error::RecvError`. -/
inductive RecvError
  | closed
  | lagged
  deriving DecidableEq

/-- A `broadcast::Receiver<()>` of a channel with one place. -/
structure Broadcast where
  unseen : ℕ
  /-- the sender was dropped -/
  closed : Bool

/-- `recv`; `none` is `Pending`. -/
def Broadcast.recv (b : Broadcast) : Option (Except RecvError Unit × Broadcast) :=
  match b.unseen with
  | 0 => if b.closed then some (.error .closed, b) else none
  | 1 => some (.ok (), { b with unseen := 0 })
  | _ + 2 => some (.error .lagged, { b with unseen := 1 })

variable {C S K E L : Type}

/-- Where the loop stands. It owns the component until it calls `shutdown`. -/
inductive LoopPc (C S E : Type)
  /-- the `select!` -/
  | select (component : C)
  /-- `component.shutdown().await` -/
  | shutdown (future : S)
  | returned (result : Except E Unit)
  | panicked

structure EventLoop (C S K E : Type) where
  pc : LoopPc C S E
  shutdown : Broadcast
  /-- a task was spawned for each -/
  connections : List K
  /-- how often `component.shutdown()` has run to completion -/
  completed : ℕ

inductive LoopLabel (L : Type)
  /-- the `select!` polls `component.accept()` -/
  | accept (l : L)
  /-- it takes the branch of `shutdown.recv()` -/
  | recv
  /-- `component.shutdown()` is polled -/
  | poll (l : L)
  | outside (l : L)
  /-- the broadcaster sends -/
  | send
  /-- it is dropped -/
  | drop

namespace EventLoop

/-- The loop has been called with a receiver of `notify_shutdown`. -/
def init (component : C) : EventLoop C S K E := ⟨.select component, ⟨0, false⟩, [], 0⟩

/-- What follows `component.accept()`. -/
def accepted (n : EventLoop C S K E) (component : C) : Except E K → EventLoop C S K E
  | .ok connection => { n with pc := .select component, connections := n.connections ++ [connection] }
  -- `result.unwrap()`
  | .error _ => { n with pc := .panicked }

def step (impl : ComponentImpl C S K E L) (n : EventLoop C S K E) : LoopLabel L → Option (EventLoop C S K E)
  | .accept l =>
    match n.pc with
    | .select component =>
      (impl.accept component l).map fun
        | (component, .pending) => { n with pc := .select component }
        | (component, .ready result) => n.accepted component result
        | (_, .panic) => { n with pc := .panicked }
    | _ => none
  | .recv =>
    match n.pc with
    | .select component =>
      n.shutdown.recv.map fun r => { n with shutdown := r.2, pc := .shutdown (impl.shutdown component) }
    | _ => none
  | .poll l =>
    match n.pc with
    | .shutdown future =>
      (impl.poll future l).map fun
        | (future, .pending) => { n with pc := .shutdown future }
        | (_, .ready _) => { n with pc := .returned (.ok ()), completed := n.completed + 1 }
        | (_, .panic) => { n with pc := .panicked }
    | _ => none
  | .outside l =>
    match n.pc with
    | .select component => (impl.outside component l).map fun component => { n with pc := .select component }
    | .shutdown future => (impl.outsideShutdown future l).map fun future => { n with pc := .shutdown future }
    | _ => none
  | .send =>
    if n.shutdown.closed then none else some { n with shutdown := { n.shutdown with unseen := n.shutdown.unseen + 1 } }
  | .drop => some { n with shutdown := { n.shutdown with closed := true } }

/-- The loop is in its `select!`. -/
def selects (n : EventLoop C S K E) : Bool :=
  match n.pc with
  | .select _ => true
  | _ => false

/-- `input.await` of `block_until_completion` returns; whether the loop has panicked is ignored
there. -/
def ended (n : EventLoop C S K E) : Bool :=
  match n.pc with
  | .returned _ | .panicked => true
  | _ => false

/-- The error that is logged: `Failed to accept input`. -/
def logged (n : EventLoop C S K E) : Option E :=
  match n.pc with
  | .returned (.error e) => some e
  | _ => none

end EventLoop

/-! ## The TCP component -/

variable {A M : Type}

/-- What the world around a `TcpListener` decides. -/
inductive TcpEvent (A M : Type)
  /-- `poll_accept` is `Pending` -/
  | pending
  /-- it yields a connection: what the handler of the router does with the request -/
  | stream (u : Usage A (AskResult M))
  | failed (e : ℕ)
  /-- `raw_shutdown` makes a step -/
  | shutdown (x : Act A M)
  /-- others do: children of the router, the tasks of its connections -/
  | host (l : HostLabel A M)

namespace TcpListener

/-- `TcpListener::new`, whose `raw_start` calls `on_start`. -/
def new (cfg : Config) (actor : A) (u : Usage A Unit) : Option (Host A M) :=
  let h := Host.init cfg true actor
  match h.node.perform fun _ _ => u with
  | .ok (n, _) => some { h with node := n.mainLoop }
  | .error _ => none

/-- `TcpAcceptFut::poll`. -/
def accept (h : Host A M) : TcpEvent A M → Option (Host A M × Poll (Except ℕ M))
  | .pending => some (h, .pending)
  | .stream u =>
    -- `tcp_actors`, then `executor.ask`
    (h.step .subscribe).map fun h =>
      match h.node.perform fun _ _ => u with
      | .ok (n, .reply v) => ({ h with node := n }, .ready (.ok v))
      | .ok (n, .task _) | .error n => ({ h with node := n }, .panic)
  | .failed e => some (h, .ready (.error e))
  | _ => none

/-- Where `raw_shutdown` has come to. -/
def progress (n : Node A M) : Poll Unit :=
  match n.pc with
  | .done => .ready ()
  | .panicked _ => .panic
  | _ => .pending

/-- A poll of the future of `shutdown`, which is `raw_shutdown`. -/
def poll (h : Host A M) : TcpEvent A M → Option (Host A M × Poll Unit)
  | .shutdown x =>
    match h.node.pc, x with
    -- requests are over
    | .recv, .op _ | .recv, .reply _ _ | .recv, .task _ _ | .recv, .panic => none
    | _, x => (h.exec x).map fun n => ({ h with node := n }, progress n)
  | _ => none

/-- What others do. -/
def outside (h : Host A M) : TcpEvent A M → Option (Host A M)
  | .host (.node (.exec _)) | .host .subscribe => none
  | .host l => h.step l
  | _ => none

/-- `TcpListener`. A connection stands for the actor that the router has replied with. -/
def impl : ComponentImpl (Host A M) (Host A M) M ℕ (TcpEvent A M) where
  accept := accept
  shutdown h := h
  poll := poll
  outside := outside
  outsideShutdown := outside

end TcpListener

end Tokactor
