import Pixelflut.Lib.Transition
import Pixelflut.Lib.PointerChain
import Pixelflut.Lib.BlockHeap
import Pixelflut.Lib.RowMajor
import Pixelflut.Lib.Bytes
import Pixelflut.Lib.Drawing
import Pixelflut.Lib.Ownership
import Pixelflut.Lib.Lifetime
import Pixelflut.Lib.Jump
import Pixelflut.Lib.CString
import Pixelflut.Lib.Signed
import Pixelflut.Lib.Loop
import Pixelflut.Lib.Wrapping
import Pixelflut.Lib.Claims
import Pixelflut.Lib.Accounts
import Pixelflut.Lib.Store
import Pixelflut.Lib.Batch
import Pixelflut.Lib.Painting
import Pixelflut.Lib.Ranking
import Pixelflut.Lib.Rounds
import Pixelflut.Errno
import Pixelflut.LList.Basic
import Pixelflut.LList.Refinement
import Pixelflut.LList.FreeWalk
import Pixelflut.Framebuffer.Basic
import Pixelflut.Framebuffer.Size
import Pixelflut.Framebuffer.Resize
import Pixelflut.Framebuffer.Race
import Pixelflut.Wire
import Pixelflut.Network.Basic
import Pixelflut.Network.CanvasLaw
import Pixelflut.Network.StaleBytes
import Pixelflut.Xdp.Basic
import Pixelflut.Xdp.Agreement
import Pixelflut.Client.Address
import Pixelflut.Client.Mbufs
import Pixelflut.Client.Coverage
import Pixelflut.Workqueue.Basic
import Pixelflut.Workqueue.Moves
import Pixelflut.Workqueue.Ledger
import Pixelflut.Workqueue.Refinement
import Pixelflut.Workqueue.Fifo
import Pixelflut.Workqueue.Wakeup
import Pixelflut.Workqueue.Unlock
import Pixelflut.Workqueue.Cleanup
import Pixelflut.Queues.Basic
import Pixelflut.Queues.Shutdown
import Pixelflut.Queues.ResizeAll
import Pixelflut.Queues.Counter
import Pixelflut.Frontend.Spec
import Pixelflut.Sdl.Basic
import Pixelflut.Sdl.Upload
import Pixelflut.Vnc.Attached
import Pixelflut.Main.Basic
import Pixelflut.Main.Release
import Pixelflut.Main.Status
import Pixelflut.Main.Pacing
import Pixelflut.Main.Teardown
import Pixelflut.Vnc.Configure
import Pixelflut.Vnc.Overlay
import Pixelflut.Dpdk.Ring
import Pixelflut.Dpdk.RingThreads
import Pixelflut.Dpdk.RingInvariant
import Pixelflut.Dpdk.RingFifo
import Pixelflut.Dpdk.RingProgress
import Pixelflut.Dpdk.RingCalls
import Pixelflut.Dpdk.Mempool
import Pixelflut.Dpdk.MempoolConserved
import Pixelflut.Dpdk.Mbuf
import Pixelflut.Client.Frame
import Pixelflut.Client.Delivery
import Pixelflut.Client.Squares
import Pixelflut.Network.Receive
import Pixelflut.Main.Receiving
import Pixelflut.Workqueue.Stopping
import Pixelflut.Workqueue.Calls
import Pixelflut.Resizing.Basic
import Pixelflut.Resizing.Privs
import Pixelflut.Resizing.Jobs
import Pixelflut.Main.Frames
import Pixelflut.Vnc.RoundTrip
import Pixelflut.Dpdk.Layout
