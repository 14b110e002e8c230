import Carrick.Aperture.Ownership
import Carrick.Aperture.Restores
import Carrick.BuddyStorage.Runs
import Carrick.CompletionQueue.Order
import Carrick.Elf.PageSpans
import Carrick.FdCore.LowestFree
import Carrick.FdCore.References
import Carrick.FdCore.Reservations
import Carrick.ForkQuiesce.Barrier
import Carrick.ForkQuiesce.Refusals
import Carrick.FutexTickets.Custody
import Carrick.FutexTickets.Requeue
import Carrick.Identity.Authority
import Carrick.Inotify.Log
import Carrick.Inotify.WatchDescriptors
import Carrick.MmapArena.HighGaps
import Carrick.MmapArena.Partition
import Carrick.MmapArena.RangeSets
import Carrick.MmapArena.Watermark
import Carrick.Mqueue.Wakeups
import Carrick.Occupancy.Scan
import Carrick.PipeCore.Cursor
import Carrick.PipeCore.Revision
import Carrick.RecordLocks.Bytes
import Carrick.RecordLocks.Deadlock
import Carrick.Reservation.Custody
import Carrick.Reservation.Journal
import Carrick.SeqLock.Buffer
import Carrick.Signal.IntervalTimer
import Carrick.Signal.ItimerTable
import Carrick.SoftMmu.Evictions
import Carrick.TimerIndex.Runs
import Carrick.Vfs.PathCodec
import Carrick.Vfs.SeekExtents
import Carrick.VmaMap.FiniteMap
import Carrick.VmaMap.Mremap
import Carrick.Zone.Deadlines
import Carrick.Zone.Endings
