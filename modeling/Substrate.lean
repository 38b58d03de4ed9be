import Substrate.Arith
import Substrate.Bytes
import Substrate.Bytes.Session
import Substrate.Cancel
import Substrate.Cancel.Session
import Substrate.Capability.Figure
import Substrate.Capability.Grid
import Substrate.Capability.Object
import Substrate.Capability.Session
import Substrate.Coro.Body
import Substrate.Coro.Exec
import Substrate.Coro.Frame
import Substrate.Coro.RunLists
import Substrate.Coro.Session
import Substrate.Coro.Task
import Substrate.Coro.Thread
import Substrate.Coro.Wait
import Substrate.Coro.Worker
import Substrate.Coro.World
import Substrate.Dynamic.Box
import Substrate.Dynamic.Plain
import Substrate.Dynamic.Registry
import Substrate.Dynamic.Session
import Substrate.Fault
import Substrate.Hash.Sip
import Substrate.Lock
import Substrate.Lock.Section
import Substrate.Lock.Session
import Substrate.Ownership.Heap
import Substrate.Ownership.Pointer
import Substrate.Ownership.Session
import Substrate.Pool
import Substrate.Pool.Session
import Substrate.Proofs.Bytes.Comparing
import Substrate.Proofs.Bytes.Decoding
import Substrate.Proofs.Bytes.Joining
import Substrate.Proofs.Cancel.Lineages
import Substrate.Proofs.Capability.Dispatch
import Substrate.Proofs.Capability.Masking
import Substrate.Proofs.Coro.Accounts
import Substrate.Proofs.Coro.Balances
import Substrate.Proofs.Coro.BodyInvariants
import Substrate.Proofs.Coro.CallerInvariants
import Substrate.Proofs.Coro.Calls
import Substrate.Proofs.Coro.Chains
import Substrate.Proofs.Coro.Checkpoints
import Substrate.Proofs.Coro.Continuations
import Substrate.Proofs.Coro.Depths
import Substrate.Proofs.Coro.Edits.Ledger
import Substrate.Proofs.Coro.Endings
import Substrate.Proofs.Coro.Layout
import Substrate.Proofs.Coro.Lifetimes
import Substrate.Proofs.Coro.Names
import Substrate.Proofs.Coro.Owners
import Substrate.Proofs.Coro.Polls
import Substrate.Proofs.Coro.Requests
import Substrate.Proofs.Coro.RunLists
import Substrate.Proofs.Coro.Runs
import Substrate.Proofs.Coro.Stacks
import Substrate.Proofs.Coro.Stalls
import Substrate.Proofs.Coro.Statements
import Substrate.Proofs.Coro.Stations
import Substrate.Proofs.Coro.Steps
import Substrate.Proofs.Coro.Tallies
import Substrate.Proofs.Coro.Tasks
import Substrate.Proofs.Coro.Threads
import Substrate.Proofs.Coro.Turns
import Substrate.Proofs.Coro.UntouchedFrames
import Substrate.Proofs.Coro.Waits
import Substrate.Proofs.Coro.Whereabouts
import Substrate.Proofs.Coro.WorkerChanges
import Substrate.Proofs.Division
import Substrate.Proofs.Dynamic.Boxes
import Substrate.Proofs.Dynamic.Equality
import Substrate.Proofs.Dynamic.Holders
import Substrate.Proofs.Dynamic.Registering
import Substrate.Proofs.Lock.Holding
import Substrate.Proofs.Ownership.Balance
import Substrate.Proofs.Ownership.Cascades
import Substrate.Proofs.Ownership.Leaks
import Substrate.Proofs.Ownership.Pointers
import Substrate.Proofs.Ownership.Rebinding
import Substrate.Proofs.Ownership.Runs
import Substrate.Proofs.Registers
import Substrate.Proofs.Settings
import Substrate.Proofs.View.Aliasing
import Substrate.Proofs.View.Capacities
import Substrate.Proofs.View.Contents
import Substrate.Proofs.View.Failing
import Substrate.Proofs.View.Growing
import Substrate.Proofs.View.Instances
import Substrate.Proofs.View.Runs
import Substrate.Proofs.View.Strings
import Substrate.Proofs.View.Values
import Substrate.Proofs.View.Windows
import Substrate.Registers
import Substrate.Settings
import Substrate.Table
import Substrate.Text.Blank
import Substrate.Text.Decimal
import Substrate.Text.Hex
import Substrate.Text.Quoted
import Substrate.Text.Record
import Substrate.Text.Unprinted
import Substrate.Text.Utf8
import Substrate.View.Element
import Substrate.View.Memory
import Substrate.View.Session
