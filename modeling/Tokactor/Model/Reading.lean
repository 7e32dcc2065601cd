import Tokactor.Model.Connection

/-!
# What a call of `Reader::read` comes to

`Reader::read` (`io/mod.rs`) and the `match` on it in the task of a connection
(`world/mod.rs`), and what the reads of frames gave that the reader task made for a request.
-/

namespace Tokactor

variable {len : ℕ} {P A M R : Type}

/-! ## The result of a call -/

/-- What `rx.await` yields; the error, and a request that cannot be sent, are `none`. -/
def ReadCall.awaited : ReadCall R → Option (Option (Except ℕ R))
  | .response object => some (some (.ok object))
  | .closed => some none
  | .waiting | .gone => none

/-- `Reader::read`, from what `rx.await` yields. -/
def Reader.read : Option (Except ℕ R) → Except ℕ (Option R)
  | some response => response.map some
  | none => .ok none

def ReadCall.returns (c : ReadCall R) : Option (Except ℕ (Option R)) := c.awaited.map Reader.read

/-- The arms of `match reader.read().await` in `World::on_input`. -/
inductive Arm (R : Type)
  | asks (payload : R)
  | disconnects
  | fails (e : ℕ)

def Arm.of : Except ℕ (Option R) → Arm R
  | .ok (some payload) => .asks payload
  | .ok none => .disconnects
  | .error e => .fails e

/-- The task of a connection takes an arm. -/
def Connection.take (s : Scheduler) (c : Connection len P A M) : Arm M → Option (Connection len P A M)
  | .asks payload =>
    match c.actor.send (.asyncAsk payload s) with
    | some n => some { c with actor := n, pc := .asking c.actor.asks.length }
    | none => if c.actor.mailbox.closed then some (c.finish .panicked) else none
  | .disconnects | .fails _ => some { c with pc := .leaving }

/-- **The task takes the arm that its call comes to.** -/
theorem Connection.go_reading {d : DataFrameReceiver len P M} {s : Scheduler} {c : Connection len P A M} {k : ℕ}
    (hpc : c.pc = .reading k) :
    c.go d s = (c.reader.calls[k]?.bind ReadCall.returns).bind fun r => c.take s (Arm.of r) := by
  unfold go
  rw [hpc]
  simp only
  cases hk : c.reader.calls[k]? with
  | none => rfl
  | some call => cases call <;> rfl

/-! ## The reads of frames -/

/-- What `supervisor` comes back with from `frame.read`. -/
inductive FrameRead (len : ℕ)
  | data (frame : Read len)
  | eof
  | error (e : ℕ)
  /-- the future is dropped: `Shutdown`, or `Dead` -/
  | signal

def FrameRead.isData : FrameRead len → Bool
  | .data _ => true
  | _ => false

/-- The steps of the reader task and of all around it; the task may panic too. -/
inductive ReaderMove
  | step (l : ReaderLabel)
  | panic
  deriving DecidableEq

namespace ReaderActor

/-- `recv`, or the `unwrap` in `ReadFut::poll`, panics: the sender of the request and
`shutdown_tx` are dropped, and so is the queue. -/
def panics (n : ReaderActor len P R) : Option (ReaderActor len P R) :=
  match n.pc with
  | .reading _ sender _ => some (n.dropSender sender).finish
  | _ => none

def move (d : DataFrameReceiver len P R) (n : ReaderActor len P R) : ReaderMove → Option (ReaderActor len P R)
  | .step l => n.step d l
  | .panic => n.panics

/-- What the read of a frame gives in this step, with the request it is made for. -/
def reads (n : ReaderActor len P R) : ReaderMove → List (ℕ × FrameRead len)
  | .step (.frame b p) =>
    match n.pc with
    | .reading frame sender _ =>
      match supervisor n.parentRx false (ReadFut.poll frame n.source p) b with
      | some (.success (.ok (some _), frame, _), _) => [(sender, .data frame)]
      | some (.success (.ok none, _), _) => [(sender, .eof)]
      | some (.success (.error e, _), _) => [(sender, .error e)]
      | some (.shutdown, _) | some (.dead, _) => [(sender, .signal)]
      | some (.continue_, _) | none => []
    | _ => []
  | _ => []

end ReaderActor

/-- The reads made for the request `k`. -/
def readsFor (k : ℕ) (es : List (ℕ × FrameRead len)) : List (FrameRead len) :=
  es.filterMap fun e => if e.1 = k then some e.2 else none

/-- A payload gets what was read; the second part is what `recv` gave last. -/
def DataFrameReceiver.receive (d : DataFrameReceiver len P R) (acc : P × Option R) : FrameRead len → P × Option R
  | .data frame => d.recv acc.1 frame
  | _ => acc

/-- What the payload of a request comes to with the reads made for it. -/
def DataFrameReceiver.assemble (d : DataFrameReceiver len P R) (xs : List (FrameRead len)) : P × Option R :=
  xs.foldl d.receive (d.default, none)

end Tokactor
