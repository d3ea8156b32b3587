import MicroTbx.Foundation.Program
import MicroTbx.Foundation.Run
import MicroTbx.Foundation.Chain
import MicroTbx.Foundation.BestFit
import MicroTbx.Foundation.Lfsr
import MicroTbx.Foundation.BitPolynomial
import MicroTbx.Foundation.DisjointLoop
import MicroTbx.Core.Target
import MicroTbx.Core.Memory
import MicroTbx.Heap.Safety
import MicroTbx.MemPool.Service
import MicroTbx.List.NodeSafety
import MicroTbx.List.Repetition
import MicroTbx.Random.Period
import MicroTbx.Checksum.Detection
import MicroTbx.Crypto.Standard
import MicroTbx.CritSect.SingleCore
import MicroTbx.CritSect.MultiCore
import MicroTbx.CritSect.Threads
import MicroTbx.Preemptive.Fifo
import MicroTbx.Preemptive.Growth
import MicroTbx.Preemptive.Locating
import MicroTbx.Checksum.Receiver
import MicroTbx.Foundation.ExchangeSort
import MicroTbx.List.Sorting
import MicroTbx.List.Iteration
import MicroTbx.MemPool.ExactFit
import MicroTbx.MemPool.OnDemand
import MicroTbx.CritSect.LibraryCalls
import MicroTbx.Random.Seeding
import MicroTbx.CritSect.SpinLockSetup
import MicroTbx.CritSect.Atomicity
import MicroTbx.Preemptive.Delivery
import MicroTbx.Extra.Demand
import MicroTbx.Preemptive.Sharing
import MicroTbx.Extra.FreeRtos
import MicroTbx.Preemptive.Cores
import MicroTbx.Preemptive.AtRest
