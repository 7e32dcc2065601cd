import Tokactor.Model.Message

/-!
# Objects

An actor whose callbacks only compute: the hooks are the default ones, a handler changes the
actor and answers, and nothing uses the context. Such an actor is given by what a message
makes of it; `apply` is one message and `value` a sequence of them, with no mailbox, executor
or caller in sight. `examples/ping-pong.rs` is one, and so are the two actors of the fan-out
and fan-in tests in `tests/mod.rs`.
-/

namespace Tokactor

variable {A M : Type}

structure Object (A M : Type) where
  /-- `Handler<M>` -/
  handle : M → A → A
  /-- `Handler<DeadActorResult<_>>` -/
  dead : DeadActorResult A → A → A
  /-- `Ask<M>`, with `AskResult::Reply` -/
  ask : M → A → A × M
  /-- `AsyncAsk<M>`: the future it returns, which does the work -/
  asyncAsk : M → A → A × M

namespace Object

variable (O : Object A M)

/-- What a message makes of the actor, and its answer. -/
def apply (a : A) : Body A M → A × Option M
  | .user m => (O.handle m a, none)
  | .dead r => (O.dead r a, none)
  | .ask m _ => ((O.ask m a).1, some (O.ask m a).2)
  | .asyncAsk m _ .nonBlocking => ((O.asyncAsk m a).1, some (O.asyncAsk m a).2)
  -- the future is dropped unpolled
  | .asyncAsk _ _ .blocking => (a, none)
  | .await _ _ | .cancelled _ => (a, none)

/-- What a sequence of messages makes of it. -/
def value (a : A) (ms : List (Mail A M)) : A := ms.foldl (fun a m => (O.apply a m.body).1) a

/-- The answer to `m` behind the messages `ms`. -/
def answer (a : A) (ms : List (Mail A M)) (m : Mail A M) : Option M := (O.apply (O.value a ms) m.body).2

end Object

/-! ## `examples/ping-pong.rs` -/

namespace PingPong

inductive Msg
  | ping
  | pong
  deriving DecidableEq

/-- `Msg::next`. -/
def Msg.next : Msg → Msg
  | .ping => .pong
  | .pong => .ping

/-- `Ask::handle`. The counter is a `u8`, and wraps around in a release build. It handles
nothing but asks. -/
def pingPong : Object UInt8 Msg where
  handle _ a := a
  dead _ a := a
  ask message counter := (counter + 1, message.next)
  asyncAsk m a := (a, m)

end PingPong

/-! ## `tests/mod.rs` -/

namespace FanOut

structure ParentActor where
  children : ℕ
  total : ℕ
  dead : ℕ
  deriving DecidableEq

structure ChildActor where
  index : ℕ
  deriving DecidableEq

inductive Actor
  | parent (p : ParentActor)
  | child (c : ChildActor)
  deriving DecidableEq

/-- `Handler<Children>`: the children are spawned as well. -/
def handle (count : ℕ) : Actor → Actor
  | .parent p => .parent { p with children := count }
  | .child c => .child c

/-- `Handler<DeadActorResult<ChildActor>>`. For a child that has panicked the `unwrap` panics,
and the handler does not return. -/
def dead : DeadActorResult Actor → Actor → Actor
  | .ok (.child c), .parent p => .parent { p with total := p.total + c.index, dead := p.dead + 1 }
  | _, a => a

def actor : Object Actor ℕ where
  handle
  dead
  ask m a := (a, m)
  asyncAsk m a := (a, m)

end FanOut

end Tokactor
