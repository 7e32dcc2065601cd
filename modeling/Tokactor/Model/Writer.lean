import Tokactor.Lib.Chan
import Tokactor.Model.Supervise

/-!
# Writing to a connection

The writer task of a connection and the handles that send it data (`io/mod.rs`).
-/

namespace Tokactor

/-- The errors of `Writer::write`. -/
inductive WriteError
  /-- the queue refused the data -/
  | brokenPipe
  /-- the one-shot sender was dropped -/
  | other
  /-- `write_all` failed with the socket's error `e` -/
  | socket (e : ℕ)
  deriving DecidableEq

/-- Where a call of `Writer::write` stands. -/
inductive WriteState
  /-- `self.inner.send((data, tx)).await` -/
  | sending
  /-- `rx.await` -/
  | waiting
  | returned (result : Except WriteError Unit)
  /-- the caller dropped its future -/
  | gone

/-- A call of `Writer::write`, with its data. -/
structure WriteCall where
  data : List UInt8
  state : WriteState

/-- The call has not returned. -/
def WriteCall.underWay (c : WriteCall) : Bool :=
  match c.state with
  | .sending | .waiting => true
  | _ => false

/-- `sender.send(result)`. -/
def WriteCall.send (result : Except ℕ Unit) (c : WriteCall) : WriteCall :=
  match c.state with
  | .waiting => { c with state := .returned (result.mapError .socket) }
  | _ => c

/-- Dropping the sender. -/
def WriteCall.dropSender (c : WriteCall) : WriteCall :=
  match c.state with
  | .waiting => { c with state := .returned (.error .other) }
  | _ => c

/-- Where `create_writer_actor` stands. -/
inductive WriterPc
  /-- `writer_rx.recv()` -/
  | request
  /-- `source.write_all(&data)`, with the bytes put so far -/
  | writing (data : List UInt8) (sender : ℕ) (written : ℕ)
  | done

/-- The writer task of a connection, with the socket it puts bytes into, its queue and the
calls of its handles. `results` notes what `write_all` came back with, and for which call. -/
structure WriterActor where
  pc : WriterPc
  source : List UInt8
  writerRx : Chan (List UInt8 × ℕ)
  /-- the `Writer`s alive -/
  writers : ℕ
  parentRx : Watch
  /-- the reader task has sent on `shutdown_tx`, or dropped it -/
  shutdownRx : Bool
  calls : List WriteCall
  results : List (ℕ × Except ℕ Unit)

inductive WriterLabel
  /-- `Writer::clone` -/
  | clone
  /-- a `Writer` is dropped -/
  | dropWriter
  /-- `Writer::write` is called -/
  | write (data : List UInt8)
  /-- the queue accepts the data of the call `k` -/
  | send (k : ℕ)
  /-- or refuses it -/
  | refuse (k : ℕ)
  | giveUp (k : ℕ)
  /-- the supervisor sends `Shutdown`, the only message there is -/
  | shutdown
  /-- the notifier is dropped -/
  | died
  /-- the reader task ends -/
  | readerShutdown
  /-- the socket takes a part of the data at hand -/
  | put (k : ℕ)
  /-- the task goes on from its receive, through the branch `b` of `supervisor` -/
  | request (b : Branch)
  /-- and from `write_all`, which comes back with `result` -/
  | written (b : Branch) (result : Except ℕ Unit)

namespace WriterActor

/-- What `tcp_actors` starts. -/
def init (parent : Option SupervisorMessage) : WriterActor where
  pc := .request
  source := []
  writerRx := Chan.new 10
  writers := 1
  parentRx := .subscribe parent
  shutdownRx := false
  calls := []
  results := []

/-- `writer_rx.recv()`. -/
def recv (n : WriterActor) : Option (Option (List UInt8 × ℕ) × Chan (List UInt8 × ℕ)) :=
  match n.writerRx.pop with
  | some (output, rx) => some (some output, rx)
  | none => if n.writers = 0 then some (none, n.writerRx) else none

/-- The sender of the call `k` is dropped. -/
def dropSender (n : WriterActor) (k : ℕ) : WriterActor :=
  { n with calls := n.calls.modify k WriteCall.dropSender }

/-- The task ends, and its queue is dropped. -/
def finish (n : WriterActor) : WriterActor :=
  { n.writerRx.queue.foldl (fun n r => n.dropSender r.2) n with
    pc := .done
    writerRx := n.writerRx.close }

/-- The receive of `create_writer_actor`. -/
def takeRequest (n : WriterActor) (b : Branch) : Option WriterActor :=
  match n.pc with
  | .request =>
    (supervisor n.parentRx n.shutdownRx n.recv b).map fun
      | (.success (some (data, sender), rx), w) =>
        { n with writerRx := rx, parentRx := w, pc := .writing data sender 0 }
      | (.continue_, w) => { n with parentRx := w }
      | (.success (none, _), w) | (.dead, w) | (.shutdown, w) => { n with parentRx := w }.finish
  | _ => none

/-- The end of its `write_all`: when that succeeds, all of the data has been put. -/
def writeAll (n : WriterActor) (b : Branch) (result : Except ℕ Unit) : Option WriterActor :=
  match n.pc with
  | .writing data sender written =>
    (supervisor n.parentRx n.shutdownRx (some result) b).map fun
      | (.success result, w) =>
        { n with
          source := n.source ++ (match result with
            | .ok _ => data.drop written
            | .error _ => [])
          parentRx := w, results := n.results ++ [(sender, result)]
          calls := n.calls.modify sender (WriteCall.send result), pc := .request }
      | (.continue_, w) => { n with parentRx := w, pc := .request }.dropSender sender
      | (.dead, w) | (.shutdown, w) => ({ n with parentRx := w }.dropSender sender).finish
  | _ => none

def step (n : WriterActor) : WriterLabel → Option WriterActor
  | .clone => if n.writers = 0 then none else some { n with writers := n.writers + 1 }
  | .dropWriter => some { n with writers := n.writers - 1 }
  | .write data => if n.writers = 0 then none else some { n with calls := n.calls ++ [⟨data, .sending⟩] }
  | .send k =>
    match n.calls[k]? with
    | some ⟨data, .sending⟩ =>
      (n.writerRx.push (data, k)).map fun rx =>
        { n with writerRx := rx, calls := n.calls.set k ⟨data, .waiting⟩ }
    | _ => none
  | .refuse k =>
    match n.calls[k]? with
    | some ⟨data, .sending⟩ =>
      if n.writerRx.closed then some { n with calls := n.calls.set k ⟨data, .returned (.error .brokenPipe)⟩ } else none
    | _ => none
  | .giveUp k =>
    match n.calls[k]? with
    | some ⟨data, .sending⟩ | some ⟨data, .waiting⟩ => some { n with calls := n.calls.set k ⟨data, .gone⟩ }
    | _ => none
  | .shutdown => some { n with parentRx := n.parentRx.send (some .shutdown) }
  | .died => some { n with parentRx := n.parentRx.drop }
  | .readerShutdown => some { n with shutdownRx := true }
  | .put k =>
    match n.pc with
    | .writing data sender written =>
      if 0 < k ∧ written + k < data.length then
        some { n with
          source := n.source ++ (data.drop written).take k
          pc := .writing data sender (written + k) }
      else none
    | _ => none
  | .request b => n.takeRequest b
  | .written b result => n.writeAll b result

end WriterActor

end Tokactor
