import Tokactor.Model.Connection

/-!
# A server on a connection

The connection actors of `examples/stateful_tcp_world.rs` and `examples/http_world.rs`. Such
an actor has no hooks and handles nothing but requests: the future of a request writes a
response and waits until that write has come back, with whatever result. The actor has one
`Writer`, which it keeps until it is dropped itself, and nobody else knows its address than
the task of the connection.
-/

namespace Tokactor

variable {len : ℕ} {P A M : Type}

/-- What is different in the two: the bytes written for a request. The future yields
`output`, which is `()`. -/
structure Responder (M : Type) where
  response : M → List UInt8
  output : M

structure Server (len : ℕ) (P A M : Type) where
  connection : Connection len P A M
  /-- the call of `Writer::write` that the future at hand awaits -/
  writing : Option ℕ

inductive ServerLabel (A M : Type)
  /-- the future calls `Writer::write` -/
  | write
  /-- the call has come back, and the future yields -/
  | reply
  /-- the notifier of the component sends `Shutdown`, or is dropped -/
  | shutdown
  | died
  /-- any other step -/
  | other (l : ConnectionLabel A M)

namespace Server

/-- `actor.start()` and its task, for a connection that was accepted. -/
def init (len : ℕ) (P : Type) (parent : Option SupervisorMessage) (cfg : Config) (actor : A) : Server len P A M where
  connection := .init len P parent { cfg with forwarders := [] } actor none
  writing := none

/-- The code of the actor, its future apart, allows this step; others send it nothing. -/
def runs : Label A M → Bool
  | .exec (.op _) | .exec .panic | .exec (.reply _ _) | .exec (.task _ _) => false
  | .exec _ => true
  | _ => false

/-- The code of the actor allows this step of the connection. -/
def permits (c : Connection len P A M) : ConnectionLabel A M → Bool
  | .go | .reader _ => true
  | .writer (.giveUp _) => false
  | .writer .dropWriter => 2 ≤ c.writer.writers || c.pc.over
  | .writer _ => true
  | .write _ _ => false
  | .actor l => runs l

variable (d : DataFrameReceiver len P M) (r : Responder M)

/-- The future is polled for the first time. -/
def write (s : Server len P A M) : Option (Server len P A M) :=
  match s.connection.actor.pc, s.writing with
  | .future _ ⟨_, .asyncAsk request _ _⟩ _, none =>
    (s.connection.step d .nonBlocking (.write (r.response request) true)).map fun c =>
      ⟨c, some s.connection.writer.calls.length⟩
  | _, _ => none

/-- `let _ = writer.write(..).await` is over. -/
def reply (s : Server len P A M) : Option (Server len P A M) :=
  match s.writing.bind fun k => s.connection.writer.calls[k]? with
  | some ⟨_, .returned _⟩ =>
    (s.connection.step d .nonBlocking (.actor (.exec (.reply s.connection.actor.actor r.output)))).map (⟨·, none⟩)
  | _ => none

def step (s : Server len P A M) : ServerLabel A M → Option (Server len P A M)
  | .write => s.write d r
  | .reply => s.reply d r
  | .shutdown => some { s with connection := s.connection.shutdown }
  | .died => some { s with connection := s.connection.died }
  | .other l =>
    if permits s.connection l then (s.connection.step d .nonBlocking l).map fun c => { s with connection := c }
    else none

end Server

/-! ## Echo -/

namespace StatefulTcpWorld

/-- `Data`: every frame is a request. -/
def Data (len : ℕ) : DataFrameReceiver len (List UInt8) (List UInt8) where
  default := []
  recv data frame := (data, some frame.frame)

/-- `AsyncAsk::handle` of `Connection`, which writes the request itself. -/
def Connection : Responder (List UInt8) where
  response message := message
  output := []

end StatefulTcpWorld

/-! ## HTTP -/

namespace HttpWorld

/-- `AsyncAsk::handle` of `Connection`. `host` is how the header `Host` of a request is printed,
and `output` stands for `()`. -/
def Connection (host : M → List UInt8) (output : M) : Responder M where
  response req :=
    "HTTP/1.1 200 OK\r\nContent-Type:text/html\r\n\r\n<h1>".toUTF8.data.toList ++ host req ++ "</h1>".toUTF8.data.toList
  output := output

end HttpWorld

end Tokactor
