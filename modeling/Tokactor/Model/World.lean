import Tokactor.Model.Accept
import Tokactor.Model.Connection
import Tokactor.Model.Host

/-!
# The world

`World::on_input` and `World::block_until_completion` (`world/mod.rs`). An `Input` is a
component with its accept loop: the router in its `RawExecutor`, and the connections it has
accepted. After ctrl-c every loop goes on to `component.shutdown()`, which is
`raw_shutdown` of the router, and the world returns when all of them have ended. (An accept
error, and a router that panics over a request, end the loop by a panic; they are left out
here, `EventLoop` has them.)
-/

namespace Tokactor

variable {A M : Type}

/-- What a component fixes: the frames and payloads of its connections, and the actors. -/
structure Component (A M : Type) : Type 1 where
  len : ℕ
  P : Type
  payload : DataFrameReceiver len P M
  /-- the scheduler of the connection actors -/
  scheduler : Scheduler
  connection : Config
  router : Config
  /-- the router actor -/
  actor : A

/-- A component and its loop. -/
structure Input (A M : Type) : Type 1 where
  component : Component A M
  router : Node A M
  connections : List (Connection component.len component.P A M)

inductive InputLabel (A M : Type)
  /-- the router, its tasks, and those that know its address -/
  | router (l : Label A M)
  /-- `component.accept()` yields a connection: what the handler of the router does -/
  | accept (u : Usage A (AskResult A))
  /-- `shutdown.recv()` fails, and the loop breaks -/
  | shutdown
  | connection (j : ℕ) (l : ConnectionLabel A M)

namespace Input

def init (c : Component A M) : Input A M where
  component := c
  router := Node.init { c.router with supervised := false } c.actor
  connections := []

/-- A reader or writer task has a receiver of the router's notifier. -/
def held (i : Input A M) : Bool := i.connections.any Connection.held

/-- The router is `n` after a step; the tasks of the connections hear from its notifier. -/
def tell (i : Input A M) (n : Node A M) : Input A M :=
  { i with
    router := n
    connections := i.connections.map fun c =>
      let c := if n.shutdown && !i.router.shutdown then c.shutdown else c
      if n.dropped && !i.router.dropped then c.died else c }

/-- `shutdown.recv()` is ready when ctrl-c has come. -/
def step (interrupted : Bool) (i : Input A M) : InputLabel A M → Option (Input A M)
  | .router (.exec x) =>
    match i.router.pc with
    | .recv => none
    | _ => (i.router.execHeld i.held x).map i.tell
  | .router l => (i.router.step l).map i.tell
  | .accept u =>
    match i.router.pc, i.router.perform fun _ _ => u with
    | .recv, .ok (n, .reply actor) =>
      let parent := if i.router.shutdown then some .shutdown else none
      some { i with
        router := n
        connections := i.connections ++
          [.init i.component.len i.component.P parent i.component.connection actor (if interrupted then some 0 else none)] }
    | _, _ => none
  | .shutdown =>
    match i.router.pc with
    | .recv => if interrupted then some { i with router := i.router.shutdownStart } else none
    | _ => none
  | .connection j l =>
    match i.connections[j]? with
    | none => none
    | some c =>
      (c.step i.component.payload i.component.scheduler l).map fun c =>
        { i with connections := i.connections.set j c }

/-- ctrl-c comes. -/
def interrupt (i : Input A M) : Input A M := { i with connections := i.connections.map Connection.interrupt }

/-- `input.await` returns, also when the loop has panicked. -/
def ended (i : Input A M) : Bool := i.router.pc.dead

end Input

structure World (A M : Type) : Type 1 where
  inputs : List (Input A M)
  /-- ctrl-c has come -/
  interrupted : Bool
  /-- `block_until_completion` has returned -/
  returned : Bool

inductive WorldLabel (A M : Type)
  | input (i : ℕ) (l : InputLabel A M)
  | ctrlC
  /-- the last `input.await` returns, and the runtime is shut down -/
  | complete

namespace World

/-- `block_until_completion` has started the loops. -/
def init (components : List (Component A M)) : World A M := ⟨components.map Input.init, false, false⟩

def step (w : World A M) (l : WorldLabel A M) : Option (World A M) :=
  if w.returned then none
  else
    match l with
    | .input i l =>
      match w.inputs[i]? with
      | none => none
      | some input => (input.step w.interrupted l).map fun input => { w with inputs := w.inputs.set i input }
    | .ctrlC => some { w with interrupted := true, inputs := w.inputs.map Input.interrupt }
    | .complete => if w.inputs.all Input.ended then some { w with returned := true } else none

end World

end Tokactor
