import Tokactor.Lib.Script
import Tokactor.Model.Address
import Tokactor.Model.Object
import Tokactor.Model.Tree

/-!
# Workflows

`Workflow` of `utils/workflow`, and a caller that runs one against the actors of a tree. All its
futures do is ask: what an async function computes between two asks is the continuation of the
`Script`.
-/

namespace Tokactor

variable {A M : Type}

/-- A future that asks actors. An ask is the address and the message, and `AskError` is left to
the future. -/
abbrev Fut (M : Type) := Script (ℕ × M) (Except (AskError M) M) M

/-- The implementors of `Workflow`. -/
inductive Workflow (M : Type)
  /-- `F: FnOnce(In) -> Fut` -/
  | func (f : M → Fut M)
  /-- `ActorRef<A>` -/
  | actorRef (address : ℕ)
  /-- `Then`, which `Workflow::then` builds -/
  | andThen (a b : Workflow M)
  /-- `Chained` -/
  | chained (a b : Workflow M)

/-- `WorkflowBase::run`. -/
def Workflow.run : Workflow M → M → Fut M
  | .func f, inner => f inner
  | .actorRef address, input =>
    .call (address, input) fun
      | .ok response => .done response
      -- `todo!("Handle errors bro")`
      | .error _ => .crash
  | .andThen a b, input => (a.run input).bind b.run
  | .chained a b, input => (a.run input).bind b.run

/-- An ask whose `await` is over. `k` is its one-shot channel, if the mailbox took it. -/
structure Asking (M : Type) where
  address : ℕ
  message : M
  k : Option ℕ
  response : Except (AskError M) M

/-- A tree, and a task that runs a workflow. -/
structure WorkflowTree (A M : Type) where
  tree : Tree A M
  /-- what is left of the future -/
  fut : Fut M
  /-- the `rx.await` of the ask at hand -/
  rx : Option ℕ
  calls : List (Asking M)
  /-- the address whose `ask` has panicked -/
  panicked : Option ℕ

inductive WorkflowLabel (A M : Type)
  /-- the future asks -/
  | ask
  /-- it gets the response -/
  | answer
  /-- any other step, of the actors and of those who send them messages -/
  | other (l : TreeLabel A M)

namespace WorkflowTree

/-- `workflow.run(input)`, before any actor was started. -/
def init (w : Workflow M) (input : M) : WorkflowTree A M := ⟨[], w.run input, none, [], none⟩

/-- `ActorRef::ask` returns, and the future goes on. -/
def resume (s : WorkflowTree A M) (next : Except (AskError M) M → Fut M) (call : Asking M) : WorkflowTree A M :=
  { s with fut := next call.response, rx := none, calls := s.calls ++ [call] }

/-- `ActorRef::ask`, up to its `rx.await`. -/
def ask (s : WorkflowTree A M) : Option (WorkflowTree A M) :=
  match s.fut, s.rx with
  | .call (address, message) next, none =>
    s.tree[address]?.bind fun m =>
      (ActorRef.ask m.node message).bind fun
        | (.returns (.ok k), _) =>
          (s.tree.step (.step address (.send (.ask message)))).map fun t => { s with tree := t, rx := some k }
        | (.returns (.error e), _) => some (s.resume next ⟨address, message, none, .error e⟩)
        | (.panics, _) => some { s with fut := .crash, panicked := some address }
  | _, _ => none

/-- The end of that `rx.await`. -/
def answer (s : WorkflowTree A M) : Option (WorkflowTree A M) :=
  match s.fut, s.rx with
  | .call (address, message) next, some k =>
    s.tree[address]?.bind fun m =>
      (ActorRef.answer m.node k).map fun response => s.resume next ⟨address, message, some k, response⟩
  | _, _ => none

def step (s : WorkflowTree A M) : WorkflowLabel A M → Option (WorkflowTree A M)
  | .ask => s.ask
  | .answer => s.answer
  | .other l => (s.tree.step l).map fun t => { s with tree := t }

end WorkflowTree

/-! ## The tests of `utils/workflow/mod.rs` -/

namespace AddOnce

/-- `Number`, with the fixed width of each variant. -/
inductive Number
  | i32 (n : BitVec 32)
  | i64 (n : BitVec 64)
  | i128 (n : BitVec 128)
  | u32 (n : BitVec 32)
  | u64 (n : BitVec 64)
  deriving DecidableEq

/-- The reply of `AddOnce`: `as` extends the sign, or cuts off the high bits. -/
def handle : Number → Number
  | .i32 n => .i64 (n.signExtend 64)
  | .i64 n => .i128 (n.signExtend 128)
  | .i128 n => .u32 (n.setWidth 32)
  | .u32 n => .u64 (n.setWidth 64)
  | .u64 n => .i32 (n.setWidth 32)

/-- `AddOnce`, which has no fields. -/
def addOnce : Object Unit Number where
  handle _ a := a
  dead _ a := a
  ask message a := (a, handle message)
  asyncAsk m a := (a, m)

/-- The closure of the test: it asks `ad2`, and panics on an error. -/
def closure (ad2 : ℕ) : Workflow Number :=
  .func fun input => .call (ad2, input) fun
    | .ok out => .done out
    | .error _ => .crash

/-- `addr.clone().then(closure).then(addr.clone()).then(addr.clone())`. -/
def workflow (addr : ℕ) : Workflow Number :=
  .andThen (.andThen (.andThen (.actorRef addr) (closure addr)) (.actorRef addr)) (.actorRef addr)

end AddOnce

end Tokactor
