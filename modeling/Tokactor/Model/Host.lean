import Tokactor.Model.Executor

/-!
# An actor with tasks that are not its own

`tcp_actors` (`io/tcp.rs`) starts a reader and a writer task for every connection, and each
subscribes to the notifier of the router's context. Such a task never tells the actor
anything: all the actor sees of it is whether its receiver is still there. The router itself
sits in a `RawExecutor`, which handles requests in place and leaves the mailbox alone until
`raw_shutdown`.

* `Node.execHeld`: the executor when somebody else may hold a receiver of the notifier.
* `Node.rawExec`: the `RawExecutor`.
* `Host.step`: the actor, in either executor, with its reader and writer tasks.
-/

namespace Tokactor

variable {A M : Type}

namespace Node

/-- `exec`, when a receiver outside of `tasks` is left: only the readers of the receiver
count see it. -/
def execHeld (held : Bool) (n : Node A M) (x : Act A M) : Option (Node A M) :=
  if held then
    match n.pc, x with
    | .isClosed, .go => some { n with pc := .notify }
    | .notify, .go => some { n with shutdown := true, timeoutCounter := 0, pc := .wait }
    | .recheck, .go => some { n with pc := .wait }
    | .assertClosed, .go => some (n.unwind .assertion)
    | _, _ => n.exec x
  else n.exec x

/-- `RawExecutor`: `ask` calls the handler between two connections, where a `Task` meets
`unreachable!()`; `raw_shutdown` begins with `shutdown`. -/
def rawExec (held : Bool) (n : Node A M) (x : Act A M) : Option (Node A M) :=
  match n.pc with
  | .recv =>
    match x with
    | .op o => some (n.ctxOp o)
    | .reply a _ => some { n with actor := a }
    | .task _ _ | .panic => some (n.unwind .callback)
    | .go => some n.shutdownStart
    | _ => none
  | _ => n.execHeld held x

end Node

structure Host (A M : Type) where
  node : Node A M
  /-- the actor sits in a `RawExecutor` -/
  raw : Bool
  /-- the reader and writer tasks, and whether each still holds its receiver -/
  pipes : List Bool

inductive HostLabel (A M : Type)
  | node (l : Label A M)
  /-- `tcp_actors` for a new connection -/
  | subscribe
  /-- a reader or writer task ends -/
  | leave (i : ℕ)

namespace Host

/-- An actor that is about to start. -/
def init (cfg : Config) (raw : Bool) (a : A) : Host A M where
  node := Node.init { cfg with supervised := cfg.supervised && !raw } a
  raw := raw
  pipes := []

/-- A reader or writer task holds a receiver. -/
def held (h : Host A M) : Bool := h.pipes.any id

/-- `notifier.is_closed()`. -/
def isClosed (h : Host A M) : Bool := h.node.isClosed && !h.held

/-- The executor of the actor. -/
def exec (h : Host A M) (x : Act A M) : Option (Node A M) :=
  if h.raw then h.node.rawExec h.held x else h.node.execHeld h.held x

def step (h : Host A M) : HostLabel A M → Option (Host A M)
  | .node (.exec x) => (h.exec x).map fun n => { h with node := n }
  | .node l => (h.node.step l).map fun n => { h with node := n }
  | .subscribe =>
    match h.raw, h.node.pc with
    | true, .recv => some { h with pipes := h.pipes ++ [true, true] }
    | _, _ => none
  | .leave i => if h.pipes[i]? = some true then some { h with pipes := h.pipes.set i false } else none

end Host

end Tokactor
