import Noaaport.FifoRefinement
import Noaaport.ShmfifoRefinement
import Noaaport.Lib.Flow
import Noaaport.Wire
import Noaaport.Naming
import Noaaport.Storage
import Noaaport.Assembly
import Noaaport.Sync
import Noaaport.Phases
import Noaaport.Framing
import Noaaport.DataPhase
import Noaaport.Fragments
import Noaaport.PngState
import Noaaport.Reject
import Noaaport.Resolution
import Noaaport.Lib.Reassembly
import Noaaport.Products
import Noaaport.Arrival
import Noaaport.Delivery
import Noaaport.NwstgRuns
import Noaaport.Lib.Mutex
import Noaaport.HeaderCodec
import Noaaport.ShmfifoCalls
import Noaaport.ShmfifoLocks
import Noaaport.ShmfifoMonitor
import Noaaport.FifoThreads
import Noaaport.FifoWaking
import Noaaport.FifoStream
import Noaaport.FifoSession
import Noaaport.FifoEnd
import Noaaport.FifoDeadlock
import Noaaport.Coverage
import Noaaport.Splitting
import Noaaport.Records
import Noaaport.Agreement
import Noaaport.Lib.Scan
import Noaaport.WmoHeader
import Noaaport.Redbook
import Noaaport.HeaderBounds
import Noaaport.Identity
import Noaaport.Leftover
import Noaaport.ShmfifoAdmission
import Noaaport.Lib.Tally
import Noaaport.Statistics
import Noaaport.PacketCounts
import Noaaport.Lib.Calls
import Noaaport.ProductQueue
import Noaaport.QueueRegistry
import Noaaport.QueueHandles
import Noaaport.ProductCounts
import Noaaport.NoaaportLog
import Noaaport.FifoCalls
import Noaaport.ReaderLoop
import Noaaport.Lib.StaticResult
import Noaaport.Lib.Writes
import Noaaport.ShmfifoSanity
import Noaaport.Bufread
import Noaaport.AsciiCheck
import Noaaport.FosText
import Noaaport.Gribid
import Noaaport.PacketBuffer
import Noaaport.HeapWrites
import Noaaport.HeapBounds
import Noaaport.GoesBounds
import Noaaport.GoesAccount
import Noaaport.FragmentPool
import Noaaport.RedbookBounds
import Noaaport.CcbFields
import Noaaport.Grib2Guard
import Noaaport.Grib2Name
import Noaaport.Scanlines
import Noaaport.ShmfifoPrint
import Noaaport.NameBounds
import Noaaport.WmoHeadings
import Noaaport.MulticastGaps
import Noaaport.Grib2RoundTrip
import Noaaport.Ingester
import Noaaport.Shutdown
import Noaaport.GempakTimes
import Noaaport.GempakTables
import Noaaport.Capture
