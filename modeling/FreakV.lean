import FreakV.Resp.Intact
import FreakV.Net.Integers
import FreakV.Net.Forgotten
import FreakV.Reanchor
import FreakV.Routing
import FreakV.Commands.Deadline
import FreakV.Commands.Ownership
import FreakV.Commands.Simulation
import FreakV.Coordinator.Backpressure
import FreakV.Deferral
import FreakV.Objects.Release
import FreakV.Snapshot.FlushAll
import FreakV.Snapshot.Format
import FreakV.Snapshot.Failure
import FreakV.Snapshot.Dedup
import FreakV.Mem.Arena
import FreakV.Mem.Buddy
import FreakV.LockTable
import FreakV.Slab
import FreakV.Spsc.Lossless
import FreakV.Spsc.Wakeup
import FreakV.Resp.Announce
import FreakV.Serving.Leak
import FreakV.WaitQueue.Drain
import FreakV.Resp.Capacity
import FreakV.Net.Sequence
import FreakV.HashTable.Callback
import FreakV.HashTable.Returned
import FreakV.Shard.Runs
