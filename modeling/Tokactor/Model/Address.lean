import Tokactor.Model.Executor

/-!
# Addresses

The sending operations of `ActorRef` (`address.rs`), with the boxes they put in the
mailbox and take back from it when the send fails (`envelope.rs`). In a `Node` only the
`Body` of what the mailbox accepted is left of a box; here is what the caller sees.
-/

namespace Tokactor

variable {A M T : Type}

/-! ## What is put in a `Box<dyn SendMessage<A>>` -/

/-- `Envelope`. -/
structure Envelope (T : Type) where
  msg : Option T

/-- `Envelope::new`. -/
def Envelope.new (msg : T) : Envelope T := ⟨some msg⟩

/-- `Envelope::unwrap`; `none` is a panic. -/
def Envelope.unwrap (e : Envelope T) : Option T := e.msg

/-- The implementors of `SendMessage`, with a message of type `T`. -/
inductive SendMessage (T : Type)
  | confidentialEnvelope (msg : Option T)
  | envelope (e : Envelope T)
  | response (msg : Envelope T)
  | asyncResponse (msg : Envelope T)

/-- `as_any().downcast_mut::<Envelope<T>>()`. Every `as_any` returns `self`, so it succeeds
on an `Envelope` only, not on a box around one. -/
def SendMessage.downcastEnvelope : SendMessage T → Option (Envelope T)
  | .envelope e => some e
  | .confidentialEnvelope _ | .response _ | .asyncResponse _ => none

/-! ## How a call ends -/

/-- `SendError`. -/
inductive SendError (T : Type)
  | lost
  | closed (m : T)
  | full (m : T)

/-- `AskError`. -/
inductive AskError (T : Type)
  | closed (m : T)
  | dropped

/-- `mpsc::error::TrySendError`. -/
inductive TrySendError (T : Type)
  | full (x : T)
  | closed (x : T)

/-- A call returns or panics. -/
inductive Call (α : Type)
  | returns (x : α)
  | panics

/-- `Option::unwrap`, and what follows it. -/
def Call.unwrap {α β : Type} (x : Option α) (f : α → β) : Call β :=
  match x with
  | some x => .returns (f x)
  | none => .panics

/-- `mpsc::Sender::try_send`. `put` is how the mailbox takes the box. -/
def mpscTrySend (n : Node A M) (box : SendMessage T) (put : Node A M → Option (Node A M)) :
    Except (TrySendError (SendMessage T)) (Node A M) :=
  if n.mailbox.closed then .error (.closed box)
  else
    match put n with
    | some n' => .ok n'
    | none => .error (.full box)

/-- `mpsc::Sender::send`; it waits (`none`) while the mailbox is full. -/
def mpscSend (n : Node A M) (box : SendMessage T) (put : Node A M → Option (Node A M)) :
    Option (Except (SendMessage T) (Node A M)) :=
  if n.mailbox.closed then some (.error box) else (put n).map .ok

/-! ## `ActorRef` -/

/-- The messages a handler is written for: those of users, and how a child ended. -/
inductive Handled (A M : Type)
  | message (m : M)
  | deadActor (r : DeadActorResult A)

def Handled.body : Handled A M → Body A M
  | .message m => .user m
  | .deadActor r => .dead r

/-- The messages of an `InternalHandler`. -/
inductive Internal
  | intoFutureShutdown (stopNow : Bool)
  | anonymousTaskCancelled (c : AnonymousTaskCancelled)

namespace Node

/-- The mailbox takes a message from task `src` of the actor, or from somebody else. -/
def accept (n : Node A M) (src : Option ℕ) (b : Body A M) : Option (Node A M) :=
  (n.mailbox.push ⟨src, b⟩).map fun c => { n with mailbox := c }

/-- It takes a `ConfidentialEnvelope`. -/
def acceptInternal (n : Node A M) (src : Option ℕ) : Internal → Option (Node A M)
  | .intoFutureShutdown stopNow => n.send (.await stopNow)
  | .anonymousTaskCancelled c => n.accept src (.cancelled c)

end Node

namespace ActorRef

/-- `ActorRef::send`. -/
def send (n : Node A M) (src : Option ℕ) (message : Handled A M) :
    Call (Except (SendError (Handled A M)) Unit) × Node A M :=
  match mpscTrySend n (.envelope (.new message)) (·.accept src message.body) with
  | .ok n' => (.returns (.ok ()), n')
  | .error (.full err) => (.unwrap (err.downcastEnvelope.bind Envelope.unwrap) (.error <| .full ·), n)
  | .error (.closed err) => (.unwrap (err.downcastEnvelope.bind Envelope.unwrap) (.error <| .closed ·), n)

/-- `ActorRef::send_async`. -/
def sendAsync (n : Node A M) (src : Option ℕ) (message : Handled A M) :
    Option (Call (Except (SendError (Handled A M)) Unit) × Node A M) :=
  (mpscSend n (.envelope (.new message)) (·.accept src message.body)).map fun
    | .ok n' => (.returns (.ok ()), n')
    | .error err => (.unwrap (err.downcastEnvelope.bind Envelope.unwrap) (.error <| .closed ·), n)

/-- What `ask` and `async_ask` share: the one-shot channel `k` is awaited when the mailbox
took the box. -/
def askWith (n : Node A M) (box : SendMessage M) (put : Node A M → Option (Node A M)) :
    Option (Call (Except (AskError M) ℕ) × Node A M) :=
  (mpscSend n box put).map fun
    | .ok n' => (.returns (.ok n.asks.length), n')
    | .error err => (.unwrap (err.downcastEnvelope.bind Envelope.unwrap) (.error <| .closed ·), n)

/-- `ActorRef::ask`, up to `rx.await`. -/
def ask (n : Node A M) (message : M) : Option (Call (Except (AskError M) ℕ) × Node A M) :=
  askWith n (.response (.new message)) (·.send (.ask message))

/-- `ActorRef::async_ask`, up to `rx.await`. -/
def asyncAsk (n : Node A M) (message : M) (s : Scheduler) : Option (Call (Except (AskError M) ℕ) × Node A M) :=
  askWith n (.asyncResponse (.new message)) (·.send (.asyncAsk message s))

/-- `rx.await` of an ask. -/
def answer (n : Node A M) (k : ℕ) : Option (Except (AskError M) M) :=
  match n.asks[k]? with
  | some (.replied v) => some (.ok v)
  | some .dropped => some (.error .dropped)
  | some .pending | none => none

/-- `ActorRef::internal_send_async`. -/
def internalSendAsync (n : Node A M) (src : Option ℕ) (message : Internal) :
    Option (Call (Except (SendError Internal) Unit) × Node A M) :=
  (mpscSend n (.confidentialEnvelope (some message)) (·.acceptInternal src message)).map fun
    | .ok n' => (.returns (.ok ()), n')
    | .error err =>
      match err.downcastEnvelope with
      | some envelope => (.unwrap envelope.unwrap (.error <| .closed ·), n)
      | none => (.returns (.error .lost), n)

end ActorRef

/-- A sending operation with its message. -/
inductive Sending (A M : Type)
  | send (src : Option ℕ) (message : Handled A M)
  | sendAsync (src : Option ℕ) (message : Handled A M)
  | ask (message : M)
  | asyncAsk (message : M) (s : Scheduler)
  | internalSendAsync (src : Option ℕ) (message : Internal)

end Tokactor
