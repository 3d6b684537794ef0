import Es3Recomp.Guarantees.Jvs.Bounds
import Es3Recomp.Guarantees.Jvs.RoundTrip
import Es3Recomp.Guarantees.Jvs.Chunking
import Es3Recomp.Guarantees.Jvs.Liveness
import Es3Recomp.Guarantees.Jvs.WholeReplies
import Es3Recomp.Guarantees.Jvs.Addressing
import Es3Recomp.Guarantees.Jvs.Answers
import Es3Recomp.Guarantees.Jvs.Errors
import Es3Recomp.Guarantees.Trail
import Es3Recomp.Guarantees.Bridge64
import Es3Recomp.Guarantees.CardReader.Authentication
import Es3Recomp.Guarantees.CardReader.BlockStore
import Es3Recomp.Guarantees.CardReader.File
import Es3Recomp.Guarantees.Reads
import Es3Recomp.Guarantees.CardReader.Checksum
import Es3Recomp.Guarantees.CardReader.Chunking
import Es3Recomp.Guarantees.Writes
import Es3Recomp.Guarantees.Imports
import Es3Recomp.Guarantees.Dispatch
import Es3Recomp.Guarantees.Linking
import Es3Recomp.Guarantees.Lookup
import Es3Recomp.Guarantees.ImportNames
import Es3Recomp.Guarantees.Jvs.CoinEdges
import Es3Recomp.Guarantees.Closure
import Es3Recomp.Guarantees.Jvs.CoinLedger
import Es3Recomp.Guarantees.CallStack
import Es3Recomp.Guarantees.GuestLoad
import Es3Recomp.Guarantees.Passport
import Es3Recomp.Guarantees.IoBoard
import Es3Recomp.Guarantees.DeviceTree
import Es3Recomp.Guarantees.Jvs.Timeouts
import Es3Recomp.Guarantees.Jvs.Timetable
import Es3Recomp.Guarantees.CardReader.Bounds
import Es3Recomp.Guarantees.CardReader.Draining
import Es3Recomp.Guarantees.CardReader.RoundTrip
import Es3Recomp.Guarantees.Extents
import Es3Recomp.Guarantees.UnitCaps
import Es3Recomp.Guarantees.Fingerprint
import Es3Recomp.Guarantees.Relocation
import Es3Recomp.Guarantees.Thunk64
import Es3Recomp.Guarantees.Initterm
import Es3Recomp.Guarantees.Binding
import Es3Recomp.Guarantees.Trace64
import Es3Recomp.Guarantees.ThreadCounters
import Es3Recomp.Guarantees.FileTracker
import Es3Recomp.Guarantees.GuestPatches
import Es3Recomp.Guarantees.Resolver
import Es3Recomp.Guarantees.Interfaces
import Es3Recomp.Guarantees.Screenshot
import Es3Recomp.Guarantees.ArgString
import Es3Recomp.Guarantees.Chain
import Es3Recomp.Guarantees.TraceCalls
import Es3Recomp.Guarantees.ThunkCache
import Es3Recomp.Guarantees.HostCalls
import Es3Recomp.Guarantees.HostCode
import Es3Recomp.Guarantees.Faults
import Es3Recomp.Guarantees.SerialPorts.Runs
import Es3Recomp.Guarantees.Allnet.Replies
import Es3Recomp.Guarantees.Allnet.Requests
import Es3Recomp.Guarantees.Input
import Es3Recomp.Guarantees.Renderer
import Es3Recomp.Guarantees.Imports64
