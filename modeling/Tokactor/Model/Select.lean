import Tokactor.Model.Executor
import Tokactor.Model.Supervise

/-!
# The `select!` of `handle_supervised_message`

A supervised actor with its own receiver of the supervisor's notifier (`executor.rs`). The
`select!` has two branches and is not `biased`: each poll starts at a random one of them, and
takes the first that is ready.
-/

namespace Tokactor

variable {A M : Type}

structure Supervised (A M : Type) where
  node : Node A M
  receiver : Watch

inductive SupervisedLabel (A M : Type)
  | node (l : Label A M)
  /-- the `select!` is polled, from the branch of the supervisor or from that of the mailbox -/
  | poll (supervisorFirst : Bool)
  /-- the supervisor sends `Some(Shutdown)` -/
  | shutdown
  /-- the notifier is dropped -/
  | drop

namespace Supervised

/-- `Executor::child`. -/
def init (cfg : Config) (a : A) : Supervised A M where
  node := Node.init { cfg with supervised := true } a
  receiver := Watch.subscribe none

/-- The branch `reciever.changed()`. -/
def changed (s : Supervised A M) : Option (Supervised A M) :=
  match s.receiver.changed with
  | none => none
  | some (false, rx) => (s.node.exec .died).map (⟨·, rx⟩)
  | some (true, rx) =>
    match rx.value with
    | some .shutdown => (s.node.exec .shutdown).map (⟨·, rx⟩)
    | none => some ⟨s.node.mainLoop, rx⟩

/-- The branch `mailbox.recv()`. -/
def recv (s : Supervised A M) : Option (Supervised A M) :=
  (s.node.exec .recv <|> s.node.exec .none).map (⟨·, s.receiver⟩)

/-- A poll of the `select!`, undefined while both branches are pending. -/
def poll (s : Supervised A M) (supervisorFirst : Bool) : Option (Supervised A M) :=
  match s.node.pc with
  | .select => if supervisorFirst then s.changed <|> s.recv else s.recv <|> s.changed
  | _ => none

def step (s : Supervised A M) : SupervisedLabel A M → Option (Supervised A M)
  | .node (.exec x) =>
    match s.node.pc with
    | .select => none
    | _ => (s.node.exec x).map (⟨·, s.receiver⟩)
  | .node l => (s.node.step l).map (⟨·, s.receiver⟩)
  | .poll b => s.poll b
  | .shutdown => if s.receiver.dropped then none else some { s with receiver := s.receiver.send (some .shutdown) }
  | .drop => some { s with receiver := s.receiver.drop }

end Supervised

end Tokactor
