import Tokactor.Model.Address
import Tokactor.Model.Tree

/-!
# A router and its children

`Router` of `utils/router.rs`, as an actor of a tree: it spawns its children in `on_start`,
and the handler of an async ask passes the request on to one of them. The hooks do nothing.
A message for a `Router` is an async ask, whose future is awaited since its scheduler is the
default one, an await request, or the report of a child.
-/

namespace Tokactor

variable {A M : Type}

/-- `Router`, with `RouterStrategy::RoundRobin { index }`. An address is the number of an
actor. -/
structure Router where
  maxRetry : ℕ
  maxActors : ℕ
  actors : List ℕ
  index : ℕ

/-- `Router::new`. -/
def Router.new (maxRetry maxActors : ℕ) : Router := ⟨maxRetry, maxActors, [], 0⟩

/-- Where the future of `AsyncAsk::handle` stands. -/
inductive Proxy
  /-- `address.async_ask(message)`; `retries` more can follow -/
  | asking (address : ℕ) (retries : ℕ)
  /-- its `rx.await`, of the ask `k` there -/
  | awaiting (address : ℕ) (k : ℕ)

/-- A tree with a router. `served` notes the answers the router got: its own ask, the child
with its ask, and the answer. -/
structure RouterTree (A M : Type) where
  tree : Tree A M
  router : Router
  proxy : Option Proxy
  served : List (ℕ × ℕ × ℕ × M)

inductive RouterLabel (A M : Type)
  /-- `on_start` spawns a child -/
  | spawn (cfg : Config) (a : A)
  /-- `AsyncAsk::handle` returns its future -/
  | handle
  /-- the future asks the child -/
  | ask
  /-- it gets the answer -/
  | answer
  /-- any other step -/
  | other (l : TreeLabel A M)

namespace RouterTree

def init (maxRetry maxActors : ℕ) : RouterTree A M := ⟨[], .new maxRetry maxActors, none, []⟩

/-- The router is actor `i`. -/
def node (s : RouterTree A M) (i : ℕ) : Option (Node A M) := s.tree[i]?.map Member.node

/-- The code of the router allows this step, which is none of its future's. -/
def runs (r : Router) (n : Node A M) : Label A M → Bool
  | .send (.asyncAsk _ .nonBlocking) | .send (.await _) => true
  | .send _ => false
  | .exec (.ret _) =>
    match n.pc with
    | .onStart => r.actors.length = r.maxActors
    | .handle _ ⟨_, .dead (.ok _)⟩ => true
    | .handle _ _ => false
    | _ => true
  | .exec .panic =>
    -- `Err(_error) => todo!()`
    match n.pc with
    | .handle _ ⟨_, .dead (.error _)⟩ => true
    | _ => false
  | .exec (.op _) | .exec (.reply _ _) | .exec (.task _ _) => false
  | .task _ (.child _) => true
  | .task _ _ | .join _ _ => false
  | _ => true

/-- The code of the router, actor `i`, allows this step of the tree. Its context is not one
of a `CtxBuilder`. -/
def permits (s : RouterTree A M) (i : ℕ) : TreeLabel A M → Bool
  | .run cfg _ => s.tree.length = i → cfg.forwarders.isEmpty
  | .spawn j cfg _ => j ≠ i ∧ (s.tree.length = i → cfg.forwarders.isEmpty)
  | .join _ _ => true
  | .step j l => j = i → ∀ n ∈ s.node i, runs s.router n l

/-- The tree takes a step, and `f` follows. -/
def act (s : RouterTree A M) (l : TreeLabel A M) (f : RouterTree A M → RouterTree A M) : Option (RouterTree A M) :=
  (s.tree.step l).map fun t => f { s with tree := t }

/-- The router, actor `i`, panics. -/
def panic (s : RouterTree A M) (i : ℕ) : Option (RouterTree A M) := s.act (.step i (.exec .panic)) id

/-- `on_start` of the router: `ctx.spawn(A::default())`. -/
def onStart (s : RouterTree A M) (i : ℕ) (n : Node A M) (cfg : Config) (a : A) : Option (RouterTree A M) :=
  match n.pc with
  | .onStart =>
    if s.router.actors.length < s.router.maxActors then
      s.act (.spawn i cfg a) fun s' => { s' with router := { s.router with actors := s.router.actors ++ [s.tree.length] } }
    else none
  | _ => none

/-- `AsyncAsk::handle`. -/
def handle (s : RouterTree A M) (i : ℕ) (n : Node A M) : Option (RouterTree A M) :=
  match n.pc with
  | .handle _ ⟨_, .asyncAsk _ _ _⟩ =>
    match s.router.actors[s.router.index]? with
    | some address =>
      s.act (.step i (.exec (.ret n.actor))) fun s' =>
        { s' with
          router := { s.router with index := (s.router.index + 1) % s.router.maxActors }
          proxy := some (.asking address s.router.maxRetry) }
    | none => s.panic i
  | _ => none

/-- `address.async_ask(message).await` in the future, up to its `rx.await`. -/
def ask (s : RouterTree A M) (i : ℕ) (scheduler : Scheduler) (n : Node A M) : Option (RouterTree A M) :=
  match n.pc, s.proxy with
  | .future _ ⟨_, .asyncAsk message _ _⟩ _, some (.asking address retries) =>
    (s.node address).bind fun d =>
      (ActorRef.asyncAsk d message scheduler).bind fun
        | (.returns (.ok k), _) =>
          s.act (.step address (.send (.asyncAsk message scheduler))) fun s' =>
            { s' with proxy := some (.awaiting address k) }
        | (.returns (.error (.closed _)), _) =>
          match retries with
          | retries + 1 => some { s with proxy := some (.asking address retries) }
          | 0 => s.panic i
        | (.returns (.error .dropped), _) | (.panics, _) => s.panic i
  | _, _ => none

/-- The end of that `rx.await`; `AskError::Dropped` meets `todo!()`. -/
def answer (s : RouterTree A M) (i : ℕ) (n : Node A M) : Option (RouterTree A M) :=
  match n.pc, s.proxy with
  | .future _ ⟨_, .asyncAsk _ own _⟩ _, some (.awaiting address k) =>
    (s.node address).bind fun d =>
      (ActorRef.answer d k).bind fun
        | .ok v =>
          s.act (.step i (.exec (.reply n.actor v))) fun s' =>
            { s' with proxy := none, served := s.served ++ [(own, address, k, v)] }
        | .error _ => s.panic i
  | _, _ => none

/-- A step of the tree with the router at `i`. The children have the given scheduler. -/
def step (i : ℕ) (scheduler : Scheduler) (s : RouterTree A M) : RouterLabel A M → Option (RouterTree A M)
  | .spawn cfg a => (s.node i).bind fun n => s.onStart i n cfg a
  | .handle => (s.node i).bind fun n => s.handle i n
  | .ask => (s.node i).bind fun n => s.ask i scheduler n
  | .answer => (s.node i).bind fun n => s.answer i n
  | .other l => if s.permits i l then s.act l id else none

end RouterTree

end Tokactor
