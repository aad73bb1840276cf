import TlpiExercises.C.Fault
import TlpiExercises.C.Strings
import TlpiExercises.C.CharArray
import TlpiExercises.C.Numbers
import TlpiExercises.Lib.GetNum
import TlpiExercises.Library.LinkTree
import TlpiExercises.Library.Buffer
import TlpiExercises.Library.Lines
import TlpiExercises.Library.Runs
import TlpiExercises.Library.Region
import TlpiExercises.Library.Transitions
import TlpiExercises.Library.Mutex
import TlpiExercises.Library.Channel
import TlpiExercises.Library.Directories
import TlpiExercises.Library.Loop
import TlpiExercises.Library.Visitor
import TlpiExercises.Library.SparseFile
import TlpiExercises.Library.Pathnames
import TlpiExercises.Library.FileSystem
import TlpiExercises.Library.Resolution
import TlpiExercises.BinaryTree.Model
import TlpiExercises.BinaryTree.Operations
import TlpiExercises.BinaryTree.FiniteMap
import TlpiExercises.BinaryTree.Lookup
import TlpiExercises.NameValue.Server
import TlpiExercises.NameValue.Bindings
import TlpiExercises.NameValue.Authentication
import TlpiExercises.NameValue.Bounds
import TlpiExercises.ThreadSafeTree.Model
import TlpiExercises.ThreadSafeTree.LockBalance
import TlpiExercises.ThreadSafeTree.Sequential
import TlpiExercises.ThreadSafeTree.Interleaving
import TlpiExercises.ThreadSafeTree.SharedTree
import TlpiExercises.SeqnumFifo.Server
import TlpiExercises.SeqnumFifo.Disjoint
import TlpiExercises.SeqnumFifo.Restart
import TlpiExercises.SeqnumFifo.Crash
import TlpiExercises.SeqnumQueue.Server
import TlpiExercises.SeqnumQueue.ServedOnce
import TlpiExercises.FileServer.Server
import TlpiExercises.FileServer.Framing
import TlpiExercises.FileServer.Receive
import TlpiExercises.SignalMessaging.Receiver
import TlpiExercises.SignalMessaging.Intact
import TlpiExercises.Chat.Model
import TlpiExercises.Chat.Wakeup
import TlpiExercises.Telnet.Server
import TlpiExercises.Telnet.Pairing
import TlpiExercises.Script.Replay
import TlpiExercises.Script.RoundTrip
import TlpiExercises.LineBuffer.Model
import TlpiExercises.LineBuffer.Refinement
import TlpiExercises.LineBuffer.Stream
import TlpiExercises.LineBuffer.ReadLine
import TlpiExercises.LineBuffer.Agreement
import TlpiExercises.DynamicArray.Model
import TlpiExercises.DynamicArray.Representation
import TlpiExercises.MallocClone.Layout
import TlpiExercises.Popen.Model
import TlpiExercises.Popen.Calls
import TlpiExercises.Popen.Table
import TlpiExercises.Popen.Children
import TlpiExercises.JoinAny.Model
import TlpiExercises.JoinAny.Joined
import TlpiExercises.ProdConsumer.Model
import TlpiExercises.ProdConsumer.Conservation
import TlpiExercises.ProdConsumer.Accounts
import TlpiExercises.Pshm.Model
import TlpiExercises.Pshm.Handover
import TlpiExercises.Pshm.Transfer
import TlpiExercises.DataTransfer.Model
import TlpiExercises.DataTransfer.Turns
import TlpiExercises.TreeWatch.Model
import TlpiExercises.TreeWatch.Coverage
import TlpiExercises.TreeWatch.Quiet
import TlpiExercises.InetdEcho.Model
import TlpiExercises.InetdEcho.Accept
import TlpiExercises.CpHole.Model
import TlpiExercises.CpHole.Copy
import TlpiExercises.Dup.Dup2
import TlpiExercises.ReadvWritev.Model
import TlpiExercises.ReadvWritev.Transfers
import TlpiExercises.ReadvWritev.Bounds
import TlpiExercises.Tail.Model
import TlpiExercises.Tail.Output
import TlpiExercises.Nftw.Model
import TlpiExercises.Nftw.PostOrder
import TlpiExercises.Getcwd.Model
import TlpiExercises.Getcwd.Climb
import TlpiExercises.Getcwd.Path
import TlpiExercises.Getcwd.Restore
import TlpiExercises.C.Libgen
import TlpiExercises.Realpath.Model
import TlpiExercises.Realpath.Links
import TlpiExercises.Realpath.Levels
import TlpiExercises.Realpath.Canonical
import TlpiExercises.Realpath.Restore
import TlpiExercises.EffectiveAccess.Classes
import TlpiExercises.InitGroups.GroupList
import TlpiExercises.Setenv.Model
import TlpiExercises.Setenv.Bounds
import TlpiExercises.Library.Exploration
import TlpiExercises.ProcTree.Model
import TlpiExercises.Sendfile.Account
import TlpiExercises.ProcTree.Traversal
import TlpiExercises.ProcTree.Hierarchy
import TlpiExercises.Execlp.Search
import TlpiExercises.Execlp.Arguments
import TlpiExercises.ThreadStorage.Model
import TlpiExercises.ThreadStorage.Posix
import TlpiExercises.ThreadStorage.InPlace
import TlpiExercises.ThreadStorage.Versions
import TlpiExercises.ThreadStorage.History
import TlpiExercises.SystemV.Model
import TlpiExercises.Chattr.Model
import TlpiExercises.Reaper.Handlers
import TlpiExercises.SystemV.Conformance
import TlpiExercises.Chattr.PerFile
import TlpiExercises.Drivi.Model
import TlpiExercises.Library.Fields
import TlpiExercises.Drivi.Commands
import TlpiExercises.Library.LittleEndian
import TlpiExercises.Lockfile.Model
import TlpiExercises.TreeWatch.Batches
import TlpiExercises.Lockfile.Atomicity
import TlpiExercises.DynamicArray.Reverse
import TlpiExercises.DynamicArray.Reserve
import TlpiExercises.DynamicArray.Sort
import TlpiExercises.GetLine.Model
import TlpiExercises.GetLine.Agreement
import TlpiExercises.BinaryTree.Layout
import TlpiExercises.BinaryTree.Parent
import TlpiExercises.BinaryTree.Allocation
import TlpiExercises.BinaryTree.KeyBuffers
import TlpiExercises.Lib.NumToStr
import TlpiExercises.ListPid.Fields
import TlpiExercises.ListPid.Status
import TlpiExercises.Script.Bounds
import TlpiExercises.Script.Timestamps
import TlpiExercises.ProcTree.IndentLevels
import TlpiExercises.DynamicArray.Growth
import TlpiExercises.IsShell.Model
import TlpiExercises.IsShell.RemoteCommand
import TlpiExercises.Library.Ranges
import TlpiExercises.PipeSync.Barrier
import TlpiExercises.SeqnumStream.Grants
import TlpiExercises.SigSpeed.Model
import TlpiExercises.SigSpeed.Turns
import TlpiExercises.SigchildHandler.Model
import TlpiExercises.SigchildHandler.Reaped
import TlpiExercises.ThreadIncr.Counted
import TlpiExercises.ThreadIncr.LostUpdates
import TlpiExercises.BecomeDaemon.Daemon
import TlpiExercises.FileServer.Exchange
import TlpiExercises.InetSockets.Descriptors
import TlpiExercises.NameValue.Client
import TlpiExercises.PtyFork.Descriptors
import TlpiExercises.TimerFormat.Model
import TlpiExercises.TimerFormat.RoundTrip
import TlpiExercises.BidirPipe.Exchange
import TlpiExercises.Library.LockOrder
import TlpiExercises.MqNotify.Drained
import TlpiExercises.ThreadSafeTree.Progress
import TlpiExercises.ThreadSafeTree.Returns
import TlpiExercises.C.Radix
import TlpiExercises.Lib.GetNumFlags
import TlpiExercises.ThreadMultijoin.Ending
