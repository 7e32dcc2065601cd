import Tokactor.Lib.Chan
import Tokactor.Lib.Framing
import Tokactor.Model.Supervise

/-!
# Reading from a connection

`Read<LEN>` and `ReadFut` (`io/read/exact.rs`), the reader task of a connection and the
handles that send it requests (`io/mod.rs`), and the receiver `Data` of
`examples/http_world.rs`.
-/

namespace Tokactor

/-! ## A frame and a socket -/

/-- `Read<LEN>`. -/
structure Read (len : ℕ) where
  buffer : List UInt8
  read : ℕ
  size : buffer.length = len
  bound : read ≤ len

variable {len : ℕ}

/-- `Read::default`. -/
def Read.default (len : ℕ) : Read len := ⟨List.replicate len 0, 0, List.length_replicate, Nat.zero_le _⟩

/-- `DataFrame::frame`, and `Read::as_slice`. -/
def Read.frame (f : Read len) : List UInt8 := f.buffer.take f.read

/-- `bs` is read into the buffer; what stood behind it stays. -/
def Read.fill (f : Read len) (bs : List UInt8) (h : bs.length ≤ len) : Read len where
  buffer := bs ++ f.buffer.drop bs.length
  read := bs.length
  size := by
    rw [List.length_append, List.length_drop, f.size]
    omega
  bound := h

/-- The reading half of a socket: what has arrived was consumed, or is still there. -/
structure Source where
  arrived : List UInt8
  consumed : List UInt8
  incoming : List UInt8
  /-- the peer has closed its half -/
  closed : Bool
  history : arrived = consumed ++ incoming

def Source.new : Source := ⟨[], [], [], false, rfl⟩

/-- Bytes arrive. -/
def Source.arrive (s : Source) (bs : List UInt8) : Source :=
  { s with
    arrived := s.arrived ++ bs
    incoming := s.incoming ++ bs
    history := by rw [s.history, List.append_assoc] }

/-- `try_read` into `k` bytes. -/
def Source.tryRead (s : Source) (k : ℕ) : Source :=
  { s with
    consumed := s.consumed ++ s.incoming.take k
    incoming := s.incoming.drop k
    history := by rw [s.history, List.append_assoc, List.take_append_drop] }

/-- What the socket lets `poll_peek` see. -/
inductive Peek
  | bytes (k : ℕ)
  | error (e : ℕ)
  deriving DecidableEq

/-- `ReadFut::poll`; `none` is `Pending`. -/
def ReadFut.poll (f : Read len) (stream : Source) : Peek → Option (Except ℕ (Option Unit) × Read len × Source)
  | .error e => some (.error e, f, stream)
  | .bytes 0 =>
    -- nothing is read at the end of the stream, and into no buffer
    if stream.incoming = [] ∧ stream.closed = true ∨ len = 0 then some (.ok none, f, stream) else none
  | .bytes (k + 1) =>
    if h : k + 1 ≤ len ∧ k + 1 ≤ stream.incoming.length then
      some (.ok (some ()), f.fill (stream.incoming.take (k + 1)) (by rw [List.length_take]; omega),
        stream.tryRead (k + 1))
    else none

/-! ## Payloads -/

/-- `DataFrameReceiver`, with its `Default`. -/
structure DataFrameReceiver (len : ℕ) (P R : Type) where
  default : P
  recv : P → Read len → P × Option R

/-- `Data`: it gathers what it gets until that starts with a request. The parser of HTTP
requests is any `Codec`, which every parser has that keeps to a request it has recognised
(`Codec.ofParse`): many words stand for one request, as the version is dropped, the names of
headers are folded and empty lines before it are skipped. Its errors, at which `recv` panics, are
left out: whatever comes behind it, a buffer that gives one never starts with a request. -/
def Data {R : Type} (len : ℕ) (request : Codec UInt8 R) : DataFrameReceiver len (List UInt8) R where
  default := []
  recv data frame := (data ++ frame.frame, request.parse (data ++ frame.frame))

/-! ## The reader task -/

/-- The caller of `Reader::read`. -/
inductive ReadCall (R : Type)
  | waiting
  /-- the object was put in the one-shot channel: `Ok(Some(object))` -/
  | response (object : R)
  /-- the request was refused, or its sender dropped: `Ok(None)` -/
  | closed
  /-- the caller dropped its future -/
  | gone

/-- `oneshot::Sender::send`. -/
def ReadCall.send {R : Type} (object : R) : ReadCall R → ReadCall R
  | .waiting => .response object
  | c => c

/-- Dropping the sender. -/
def ReadCall.dropSender {R : Type} : ReadCall R → ReadCall R
  | .waiting => .closed
  | c => c

/-- Where `create_reader_actor` stands. -/
inductive ReaderPc (len : ℕ) (P : Type)
  /-- the outer loop: `reader_rx.recv()` -/
  | request
  /-- the inner loop: `frame.read(&mut source)` -/
  | reading (frame : Read len) (sender : ℕ) (payload : P)
  | done

/-- The reader task of a connection, with its socket, its queue and the callers. `frames`
notes the slices passed to `recv`. -/
structure ReaderActor (len : ℕ) (P R : Type) where
  pc : ReaderPc len P
  source : Source
  readerRx : Chan (Read len × ℕ)
  /-- a `Reader` is alive -/
  handles : Bool
  parentRx : Watch
  shutdownTx : Bool
  calls : List (ReadCall R)
  frames : List (List UInt8)

inductive ReaderLabel
  /-- a call of `Reader::read` is accepted -/
  | read
  /-- one is refused -/
  | refused
  | giveUp (k : ℕ)
  /-- the last `Reader` is dropped -/
  | hangUp
  | arrive (bs : List UInt8)
  | close
  | notify (m : Option SupervisorMessage)
  | died
  /-- the task goes on from its outer loop, through the branch `b` of `supervisor` -/
  | request (b : Branch)
  /-- and from its inner loop -/
  | frame (b : Branch) (p : Peek)
  deriving DecidableEq

namespace ReaderActor

variable {P R : Type}

/-- What `tcp_actors` starts. -/
def init (len : ℕ) (P R : Type) (parent : Option SupervisorMessage) : ReaderActor len P R where
  pc := .request
  source := .new
  readerRx := Chan.new 10
  handles := true
  parentRx := .subscribe parent
  shutdownTx := false
  calls := []
  frames := []

/-- `reader_rx.recv()`. -/
def recv (n : ReaderActor len P R) : Option (Option (Read len × ℕ) × Chan (Read len × ℕ)) :=
  match n.readerRx.pop with
  | some (output, rx) => some (some output, rx)
  | none => if n.handles then none else some (none, n.readerRx)

/-- The sender of the call `k` is dropped. -/
def dropSender (n : ReaderActor len P R) (k : ℕ) : ReaderActor len P R :=
  { n with calls := n.calls.modify k ReadCall.dropSender }

/-- `shutdown_tx.send(())`; then the task ends, and its queue is dropped. -/
def finish (n : ReaderActor len P R) : ReaderActor len P R :=
  { n.readerRx.queue.foldl (fun n r => n.dropSender r.2) n with
    pc := .done
    readerRx := n.readerRx.close
    shutdownTx := true }

/-- The outer loop of `create_reader_actor`; `pending::<()>()` is never ready. -/
def takeRequest (d : DataFrameReceiver len P R) (n : ReaderActor len P R) (b : Branch) :
    Option (ReaderActor len P R) :=
  match n.pc with
  | .request =>
    (supervisor n.parentRx false n.recv b).map fun
      | (.success (some (frame, sender), rx), w) =>
        { n with readerRx := rx, parentRx := w, pc := .reading frame sender d.default }
      | (.continue_, w) => { n with parentRx := w }
      | (.success (none, _), w) | (.dead, w) | (.shutdown, w) => { n with parentRx := w }.finish
  | _ => none

/-- The inner loop. -/
def readFrame (d : DataFrameReceiver len P R) (n : ReaderActor len P R) (b : Branch) (p : Peek) :
    Option (ReaderActor len P R) :=
  match n.pc with
  | .reading frame sender payload =>
    (supervisor n.parentRx false (ReadFut.poll frame n.source p) b).map fun
      | (.success (.ok (some ()), frame, source), w) =>
        let n := { n with source := source, parentRx := w, frames := n.frames ++ [frame.frame] }
        match d.recv payload frame with
        | (_, some object) => { n with calls := n.calls.modify sender (ReadCall.send object), pc := .request }
        | (payload, none) => { n with pc := .reading frame sender payload }
      | (.continue_, w) => { n with parentRx := w }
      | (.success (.error _, _, source), w) | (.success (.ok none, _, source), w) =>
        { n with source := source, parentRx := w, pc := .request }.dropSender sender
      | (.dead, w) | (.shutdown, w) => { n with parentRx := w, pc := .request }.dropSender sender
  | _ => none

def step (d : DataFrameReceiver len P R) (n : ReaderActor len P R) : ReaderLabel → Option (ReaderActor len P R)
  | .read =>
    if n.handles then
      (n.readerRx.push (Read.default len, n.calls.length)).map fun rx =>
        { n with readerRx := rx, calls := n.calls ++ [.waiting] }
    else none
  | .refused =>
    if n.handles ∧ n.readerRx.closed then some { n with calls := n.calls ++ [.closed] } else none
  | .giveUp k =>
    match n.calls[k]? with
    | some .waiting => some { n with calls := n.calls.set k .gone }
    | _ => none
  | .hangUp => some { n with handles := false }
  | .arrive bs => if n.source.closed then none else some { n with source := n.source.arrive bs }
  | .close => some { n with source := { n.source with closed := true } }
  | .notify m => some { n with parentRx := n.parentRx.send m }
  | .died => some { n with parentRx := n.parentRx.drop }
  | .request b => n.takeRequest d b
  | .frame b p => n.readFrame d b p

end ReaderActor

end Tokactor
