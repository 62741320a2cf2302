import DeferredCalls.Act
import DeferredCalls.Arena
import DeferredCalls.Call.Build
import DeferredCalls.Call.Diagnostic
import DeferredCalls.Call.Outcome
import DeferredCalls.Call.Provenance
import DeferredCalls.Call.Report
import DeferredCalls.Call.Run
import DeferredCalls.Call.Schedule
import DeferredCalls.Callable.CallError
import DeferredCalls.Callable.Handle
import DeferredCalls.Callable.Holding
import DeferredCalls.Config.ConfigError
import DeferredCalls.Config.Folder
import DeferredCalls.Config.Overrides
import DeferredCalls.Config.Reading
import DeferredCalls.Config.Settings
import DeferredCalls.Context.Ambient
import DeferredCalls.Context.Stack
import DeferredCalls.Error
import DeferredCalls.Journal
import DeferredCalls.Loop.Cycle
import DeferredCalls.Loop.Manual
import DeferredCalls.Loop.Queue
import DeferredCalls.Loop.Thread
import DeferredCalls.NameTable
import DeferredCalls.Script
import DeferredCalls.Session.Callables
import DeferredCalls.Session.Calls
import DeferredCalls.Session.Contexts
import DeferredCalls.Session.Drawer
import DeferredCalls.Session.Editing
import DeferredCalls.Session.Naming
import DeferredCalls.Session.Nested
import DeferredCalls.Session.Perform
import DeferredCalls.Session.Run
import DeferredCalls.Session.Schedulers
import DeferredCalls.Session.Threads
import DeferredCalls.Text.Blank
import DeferredCalls.Text.Layout
import DeferredCalls.Text.Lowercase
import DeferredCalls.Text.Printable
import DeferredCalls.Text.Quoted
import DeferredCalls.Text.Unsigned
import DeferredCalls.Toml.Document
import DeferredCalls.Toml.Moment
import DeferredCalls.Toml.Number
import DeferredCalls.Toml.Text
import DeferredCalls.Toml.Value
import DeferredCalls.World
import DeferredCalls.World.Shares
import DeferredCalls.Proofs.Tally
import DeferredCalls.Proofs.Holding
import DeferredCalls.Proofs.Balance
import DeferredCalls.Proofs.Frame
import DeferredCalls.Proofs.Course
import DeferredCalls.Proofs.Accounts
import DeferredCalls.Proofs.Telling
import DeferredCalls.Proofs.Consistency
import DeferredCalls.Proofs.Freeing
import DeferredCalls.Proofs.Partings
import DeferredCalls.Proofs.Releasing
import DeferredCalls.Proofs.Lawful
import DeferredCalls.Proofs.Running
import DeferredCalls.Proofs.Manner
import DeferredCalls.Proofs.Driving
import DeferredCalls.Proofs.Posting
import DeferredCalls.Proofs.Activity
import DeferredCalls.Proofs.Counting
import DeferredCalls.Proofs.Keeping
import DeferredCalls.Proofs.Settling
import DeferredCalls.Proofs.Nesting
import DeferredCalls.Proofs.Performing
import DeferredCalls.Proofs.History
import DeferredCalls.Proofs.Guards
import DeferredCalls.Proofs.Ambient
import DeferredCalls.Proofs.Order
import DeferredCalls.Proofs.Queues
import DeferredCalls.Proofs.Restoring
import DeferredCalls.Proofs.Ownership
import DeferredCalls.Proofs.Scheduling
import DeferredCalls.Proofs.Exactness
import DeferredCalls.Proofs.Chain
import DeferredCalls.Proofs.Trail
import DeferredCalls.Proofs.Tree
import DeferredCalls.Proofs.Reserving
import DeferredCalls.Proofs.Service
import DeferredCalls.Proofs.Respecting
import DeferredCalls.Proofs.Turns
import DeferredCalls.Proofs.Commands
import DeferredCalls.Proofs.Fairness
import DeferredCalls.Proofs.Stopping
import DeferredCalls.Proofs.LoopThreads
import DeferredCalls.Proofs.Shedding
import DeferredCalls.Proofs.Bindings
import DeferredCalls.Proofs.Detail
import DeferredCalls.Proofs.Touching
import DeferredCalls.Proofs.Veil
import DeferredCalls.Proofs.Veiled
import DeferredCalls.Proofs.Unaware
import DeferredCalls.Proofs.UnawareTurns
import DeferredCalls.Proofs.UnawareCommands
import DeferredCalls.Proofs.Logging
import DeferredCalls.Proofs.Separation
import DeferredCalls.Proofs.Existence
import DeferredCalls.Call.Interface
import DeferredCalls.Proofs.Bypassing
import DeferredCalls.Proofs.Cycles
import DeferredCalls.Proofs.Refusing
import DeferredCalls.Proofs.Outcomes
import DeferredCalls.Proofs.GuardOrder
import DeferredCalls.Proofs.Halting
import DeferredCalls.Proofs.Unpaced
import DeferredCalls.Proofs.Heedless
import DeferredCalls.Proofs.Idling
import DeferredCalls.Proofs.Transitions
import DeferredCalls.Proofs.Grammar
import DeferredCalls.Proofs.Overriding
import DeferredCalls.Proofs.Precedence
import DeferredCalls.Proofs.Misuse
import DeferredCalls.Proofs.Rereading
