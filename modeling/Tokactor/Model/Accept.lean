import Tokactor.Model.Executor

/-!
# Accepting connections

The router actor behind a TCP component is asked for the actor of every connection it
accepts, through `RawExecutor::ask` (`executor.rs`, `io/tcp.rs`). Below that path stands
next to the one of ordinary actors, `process_message` on a `Response`, for a router whose
code is given. What panics comes back as an error, with the actor as it was then. (The two
tasks that `tcp_actors` starts for a connection belong to the request, on both paths.)
-/

namespace Tokactor

variable {A M : Type}

/-- `AskResult`, with the number of the task whose handle it holds. -/
inductive AskResult (M : Type)
  | reply (v : M)
  | task (h : ℕ)

/-- What a callback does: it uses the context, and then it panics or returns. -/
structure Usage (A R : Type) where
  ops : List CtxOp
  result : Option (A × R)

/-- The code of a router: its hooks, and `Ask<TcpRequest>`. A callback sees the actor and
the state of the context. -/
structure RouterAct (A M : Type) where
  preRun : A → ActorState → Usage A Unit
  handle : M → A → ActorState → Usage A (AskResult M)
  postRun : A → ActorState → Usage A Unit

namespace Node

/-- `ctx.spawn` panics when the actor is not running. -/
def refuses (n : Node A M) : CtxOp → Bool
  | .spawn _ => n.state != .running
  | _ => false

/-- A callback uses the context. -/
def useCtx (n : Node A M) : List CtxOp → Except (Node A M) (Node A M)
  | [] => .ok n
  | o :: os => if n.refuses o then .error n else (n.ctxOp o).useCtx os

/-- A callback runs. -/
def perform {R : Type} (n : Node A M) (f : A → ActorState → Usage A R) : Except (Node A M) (Node A M × R) :=
  match n.useCtx (f n.actor n.state).ops with
  | .error n => .error n
  | .ok n' =>
    match (f n.actor n.state).result with
    | none => .error n'
    | some (a, r) => .ok ({ n' with actor := a }, r)

/-- A one-shot channel for an answer. -/
def newAsk (n : Node A M) : Node A M := { n with asks := n.asks ++ [.pending] }

/-- What `Response::send` does with the result of the handler. -/
def answerWith (n : Node A M) (k : ℕ) : AskResult M → Node A M
  | .reply v => n.answer k (.replied v)
  | .task h => n.replyTask k h

/-- `process_message` on the `Response` of the ask `k`. -/
def processMessage (r : RouterAct A M) (n : Node A M) (q : M) (k : ℕ) : Except (Node A M) (Node A M) :=
  let m : Mail A M := ⟨none, .ask q k⟩
  match (n.call (.preRun .main m) .preRun).perform r.preRun with
  | .error n => .error n
  | .ok (n, _) =>
    match (n.call (.handle .main m) (.handle m)).perform (r.handle q) with
    | .error n => .error n
    | .ok (n, result) =>
      match ((n.answerWith k result).handled .main).perform r.postRun with
      | .error n => .error n
      | .ok (n, _) => .ok n

/-- The main loop over the requests `qs`: it breaks when the actor is not running any more. -/
def processAll (r : RouterAct A M) (n : Node A M) : List M → Except (Node A M) (Node A M)
  | [] => .ok n
  | q :: qs =>
    match n.newAsk.processMessage r q n.asks.length with
    | .error n => .error n
    | .ok n => if n.state = .running then n.processAll r qs else .ok n

/-- `RawExecutor::ask`; a `Task` meets `unreachable!()`. -/
def rawAsk (r : RouterAct A M) (n : Node A M) (q : M) (k : ℕ) : Except (Node A M) (Node A M) :=
  match (n.call n.pc (.handle ⟨none, .ask q k⟩)).perform (r.handle q) with
  | .error n => .error n
  | .ok (n, .reply v) => .ok (n.answer k (.replied v))
  | .ok (n, .task _) => .error n

/-- `TcpAcceptFut::poll` for a connection with the request `q`. -/
def tcpAccept (r : RouterAct A M) (n : Node A M) (q : M) : Except (Node A M) (Node A M) :=
  n.newAsk.rawAsk r q n.asks.length

/-- The loop of `World::on_input` over the connections with the requests `qs`. -/
def acceptAll (r : RouterAct A M) (n : Node A M) : List M → Except (Node A M) (Node A M)
  | [] => .ok n
  | q :: qs =>
    match n.tcpAccept r q with
    | .error n => .error n
    | .ok n => n.acceptAll r qs

/-- The actor after a run, also when that has panicked. -/
def reached : Except (Node A M) (Node A M) → Node A M
  | .ok n | .error n => n

end Node

end Tokactor
