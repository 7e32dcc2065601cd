import Tokactor.Model.Executor
import Tokactor.Model.Reader
import Tokactor.Model.Writer

/-!
# A connection

For every connection that a component accepts there are four tasks: the reader and the
writer task of `tcp_actors` (`io/tcp.rs`), the actor of the connection, and the task of
`World::on_input` (`world/mod.rs`) that takes requests from the reader and asks the actor,
one after the other. A `Connection` is these four. The writes of the actor are made through
`Writer`s that its code may clone and pass on as it likes.
-/

namespace Tokactor

variable {len : ℕ} {P A M : Type}

/-- The messages that are through `process_message`. -/
def Node.passed (n : Node A M) : ℕ := n.mailbox.taken.length - n.pc.hand.toList.length

/-- A handler of the actor is running. -/
def Pc.works : Pc A M → Bool
  | .handle _ _ | .future _ _ _ => true
  | _ => false

/-- The executor has come to its end, or has panicked. -/
def Pc.dead : Pc A M → Bool
  | .handed | .reporting | .done | .panicked _ => true
  | _ => false

def ReaderPc.over : ReaderPc len P → Bool
  | .done => true
  | _ => false

def WriterPc.over : WriterPc → Bool
  | .done => true
  | _ => false

/-- Where the task of a connection stands. -/
inductive ConnectionPc
  /-- at `reader.read()` -/
  | loop
  /-- in `reader.read().await`, whose request is the call `k` -/
  | reading (k : ℕ)
  /-- in `connection.async_ask(payload).await`, which is the ask `k` -/
  | asking (k : ℕ)
  /-- behind the loop, at `connection.await` -/
  | leaving
  /-- in `connection.await`, which is the await `w` -/
  | awaiting (w : ℕ)
  | done
  /-- `async_ask` met a closed mailbox -/
  | panicked
  deriving DecidableEq

def ConnectionPc.over : ConnectionPc → Bool
  | .done | .panicked => true
  | _ => false

structure Connection (len : ℕ) (P A M : Type) where
  pc : ConnectionPc
  reader : ReaderActor len P M
  writer : WriterActor
  actor : Node A M
  /-- the calls of `Writer::write` that were made by a handler of the actor, with the number
  of the message it handled -/
  owners : List (Option ℕ)
  /-- the messages that the actor had accepted when ctrl-c came -/
  handed : Option ℕ

inductive ConnectionLabel (A M : Type)
  /-- the task goes on -/
  | go
  /-- the reader task does, or its socket -/
  | reader (l : ReaderLabel)
  /-- the writer task does, or somebody that has a `Writer` -/
  | writer (l : WriterLabel)
  /-- `Writer::write` is called, by the handler that is running or by somebody else -/
  | write (data : List UInt8) (handler : Bool)
  /-- the actor does, or anybody else that knows it -/
  | actor (l : Label A M)

/-- The steps of the reader task and of its socket. -/
def ReaderLabel.task : ReaderLabel → Bool
  | .arrive _ | .close | .request _ | .frame _ _ => true
  | _ => false

/-- The steps of the writer task, and of a `Writer` other than the start of a call. -/
def WriterLabel.task : WriterLabel → Bool
  | .write _ | .shutdown | .died | .readerShutdown => false
  | _ => true

namespace Connection

/-- An accepted connection: `tcp_actors`, and `actor.start()`. -/
def init (len : ℕ) (P : Type) (parent : Option SupervisorMessage) (cfg : Config) (actor : A) (handed : Option ℕ) :
    Connection len P A M where
  pc := .loop
  reader := .init len P M parent
  writer := .init parent
  actor := Node.init { cfg with supervised := false } actor
  owners := []
  handed := handed

/-- The task ends, and its `Reader` is dropped. -/
def finish (c : Connection len P A M) (pc : ConnectionPc) : Connection len P A M :=
  { c with pc := pc, reader := { c.reader with handles := false } }

/-- The task of the connection goes on. -/
def go (d : DataFrameReceiver len P M) (s : Scheduler) (c : Connection len P A M) : Option (Connection len P A M) :=
  match c.pc with
  | .loop =>
    match c.reader.step d .read with
    | some r => some { c with reader := r, pc := .reading c.reader.calls.length }
    | none => (c.reader.step d .refused).map fun r => { c with reader := r, pc := .leaving }
  | .reading k =>
    match c.reader.calls[k]? with
    | some (.response payload) =>
      match c.actor.send (.asyncAsk payload s) with
      | some n => some { c with actor := n, pc := .asking c.actor.asks.length }
      | none => if c.actor.mailbox.closed then some (c.finish .panicked) else none
    | some .closed => some { c with pc := .leaving }
    | _ => none
  | .asking k =>
    match c.actor.asks[k]? with
    | some (.replied _) | some .dropped => some { c with pc := .loop }
    | _ => none
  | .leaving =>
    match c.actor.send (.await true) with
    | some n => some { c with actor := n, pc := .awaiting c.actor.awaits.length }
    | none => (c.actor.step .refuse).map fun n => { c with actor := n }.finish .done
  | .awaiting w =>
    match c.actor.awaits[w]? with
    | some (.sent _) => (c.actor.step (.poll w)).map fun n => { c with actor := n }.finish .done
    | some .dropped => some (c.finish .done)
    | _ => none
  | .done | .panicked => none

/-- The future of `connection.await` belongs to the task. -/
def owns (c : Connection len P A M) : Label A M → Bool
  | .poll w | .giveUp w => c.pc == .awaiting w
  | _ => false

/-- A `Writer` is borrowed by the calls of it that are under way. -/
def droppable (c : Connection len P A M) : WriterLabel → Bool
  | .dropWriter => 2 ≤ c.writer.writers || c.writer.calls.all fun w => !w.underWay
  | _ => true

def step (d : DataFrameReceiver len P M) (s : Scheduler) (c : Connection len P A M) :
    ConnectionLabel A M → Option (Connection len P A M)
  | .go => c.go d s
  | .reader l =>
    if l.task then
      (c.reader.step d l).map fun r =>
        { c with reader := r, writer := { c.writer with shutdownRx := c.writer.shutdownRx || r.shutdownTx } }
    else none
  | .writer l => if l.task && c.droppable l then (c.writer.step l).map fun w => { c with writer := w } else none
  | .write data handler =>
    if handler && !c.actor.pc.works then none
    else
      (c.writer.step (.write data)).map fun w =>
        { c with writer := w, owners := c.owners ++ [if handler then some c.actor.passed else none] }
  | .actor l => if c.owns l then none else (c.actor.step l).map fun n => { c with actor := n }

/-- The notifier of the component sends `Shutdown`. -/
def shutdown (c : Connection len P A M) : Connection len P A M :=
  { c with
    reader := { c.reader with parentRx := c.reader.parentRx.send (some .shutdown) }
    writer := { c.writer with parentRx := c.writer.parentRx.send (some .shutdown) } }

/-- It is dropped. -/
def died (c : Connection len P A M) : Connection len P A M :=
  { c with
    reader := { c.reader with parentRx := c.reader.parentRx.drop }
    writer := { c.writer with parentRx := c.writer.parentRx.drop } }

/-- ctrl-c comes. -/
def interrupt (c : Connection len P A M) : Connection len P A M :=
  { c with handed := c.handed.orElse fun _ => some c.actor.mailbox.accepted.length }

/-- The reader or the writer task has a receiver of the notifier. -/
def held (c : Connection len P A M) : Bool := !c.reader.pc.over || !c.writer.pc.over

end Connection

end Tokactor
