import Tokactor.Lib.Lts
import Tokactor.Lib.Chan
import Tokactor.Model.Message
import Tokactor.Model.Task
import Tokactor.Model.Executor
import Tokactor.Proof.Step
import Tokactor.Proof.Life
import Tokactor.Proof.Tasks
import Tokactor.Proof.Children
import Tokactor.Lib.Tally
import Tokactor.Proof.Anonymous
import Tokactor.Proof.Limit
import Tokactor.Lib.Cells
import Tokactor.Proof.Awaiters
import Tokactor.Proof.Receivers
import Tokactor.Proof.Forward
import Tokactor.Model.Address
import Tokactor.Proof.Address
import Tokactor.Model.Tree
import Tokactor.Proof.Tree
import Tokactor.Proof.Shutdown
import Tokactor.Proof.Handover
import Tokactor.Proof.States
import Tokactor.Proof.Results
import Tokactor.Proof.Asks
import Tokactor.Lib.Framing
import Tokactor.Model.Reader
import Tokactor.Proof.Reader
import Tokactor.Proof.Decode
import Tokactor.Proof.Writer
import Tokactor.Proof.Writes
import Tokactor.Model.Accept
import Tokactor.Proof.Accept
import Tokactor.Model.Router
import Tokactor.Proof.Router
import Tokactor.Proof.Routes
import Tokactor.Proof.Loops
import Tokactor.Proof.Sequences
import Tokactor.Proof.Overflow
import Tokactor.Proof.Halt
import Tokactor.Proof.Reports
import Tokactor.Model.Host
import Tokactor.Proof.Host
import Tokactor.Proof.Assertion
import Tokactor.Proof.Prompt
import Tokactor.Model.Select
import Tokactor.Proof.Select
import Tokactor.Model.Process
import Tokactor.Proof.Process
import Tokactor.Model.Connection
import Tokactor.Model.World
import Tokactor.Proof.Connection
import Tokactor.Proof.World
import Tokactor.Lib.Deal
import Tokactor.Proof.RoundRobin
import Tokactor.Proof.ReaderStop
import Tokactor.Model.Reading
import Tokactor.Proof.Reading
import Tokactor.Model.EventLoop
import Tokactor.Proof.EventLoop
import Tokactor.Model.Server
import Tokactor.Proof.Alone
import Tokactor.Proof.Echo
import Tokactor.Proof.Progress
import Tokactor.Proof.Settle
import Tokactor.Proof.Exchange
import Tokactor.Model.Object
import Tokactor.Proof.FanIn
import Tokactor.Proof.Completion
import Tokactor.Lib.Script
import Tokactor.Model.Workflow
import Tokactor.Proof.Workflow
