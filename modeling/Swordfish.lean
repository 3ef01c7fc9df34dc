import Swordfish.Connection.Response
import Swordfish.Connection.Split
import Swordfish.Connection.Serving
import Swordfish.Daemon.Reload
import Swordfish.Connection.Worker
import Swordfish.Storage.Commands
import Swordfish.Connection.Command
import Swordfish.Connection.Tokenizer
import Swordfish.System.FlowOfSys
import Swordfish.System.QueueLimit
import Swordfish.Threads.Conservation
import Swordfish.Threads.Sections
import Swordfish.DHashmap.Underflow
import Swordfish.DHashmap.Eviction
import Swordfish.DHashmap.Refinement
import Swordfish.Locks.Exclusion
import Swordfish.Storage.CacheFull
import Swordfish.Storage.Refill
import Swordfish.System.FailedFill
import Swordfish.System.Provenance
import Swordfish.System.Sequential
import Swordfish.DHashmap.Effects
import Swordfish.Storage.Capacity
import Swordfish.Storage.QueueBytes
import Swordfish.System.FillerTests
import Swordfish.System.GetCommand
import Swordfish.Connection.Lines
import Swordfish.Connection.Words
import Swordfish.Daemon.Ownership
import Swordfish.Storage.QueueInvariant
import Swordfish.Storage.ResetStats
import Swordfish.Daemon.Plugin
import Swordfish.System.WorkerPool
import Swordfish.System.HashIndependence
import Swordfish.System.Decoding
import Swordfish.System.Progress
import Swordfish.Daemon.Signals
import Swordfish.System.LifeCycle
import Swordfish.System.Serial
import Swordfish.Daemon.Survival
import Swordfish.Daemon.Configured
import Swordfish.Daemon.Logging
import Swordfish.System.Shutdown
import Swordfish.System.Outdated
