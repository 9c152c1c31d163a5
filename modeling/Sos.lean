import Sos.Kernel.Isolation
import Sos.Kernel.Resumed
import Sos.Kernel.Reach
import Sos.Kernel.HeapCanonical
import Sos.Kernel.KeyQueue
import Sos.Kernel.Rollback
import Sos.Kernel.Undo
import Sos.Kernel.Exhausted
import Sos.Kernel.Loading
import Sos.Lib.Tiling
import Sos.Lib.Memory
import Sos.Lib.Chain
import Sos.Lib.Leases
import Sos.Efs.Lossless
import Sos.Boot.BlockMap
import Sos.Boot.KernelName
import Sos.Boot.Intact
import Sos.Efs.Rootless
import Sos.Efs.Lookup
import Sos.Efs.AddPointer
import Sos.Efs.RootMap
import Sos.Kernel.Leak
import Sos.Kernel.TimerOnce
import Sos.Kernel.TimerFire
import Sos.Kernel.BconTail
import Sos.Boot.Sectors
import Sos.Efs.BlockArray
import Sos.Efs.InodeTable
import Sos.Efs.Bitmap
import Sos.Efs.Ident
import Sos.Kernel.HeapRoom
import Sos.Efs.AllOrNothing
import Sos.Efs.FailedRead
import Sos.Efs.RootSize
import Sos.Efs.NameLength
import Sos.Kernel.HeapLive
import Sos.Kernel.HeapBound
import Sos.Kernel.FrameMap
import Sos.Kernel.References
import Sos.Kernel.Modifiers
import Sos.Kernel.InputLine
import Sos.Kernel.Cursor
import Sos.Kernel.Kstring
import Sos.Kernel.Kprintf
import Sos.Boot.Chs
import Sos.Lib.Numeral
import Sos.Kernel.Itoa
import Sos.Efs.BlockNumber
import Sos.Kernel.TimerSet
import Sos.Kernel.TimerNull
import Sos.Kernel.InitAlloc
import Sos.Kernel.Descriptor
import Sos.Kernel.Pic
import Sos.Kernel.Dma
import Sos.Boot.Getstr
import Sos.Boot.Prompt
import Sos.Kernel.Turns
import Sos.Kernel.Private
import Sos.Kernel.Serviced
import Sos.Boot.Startup
import Sos.Kernel.Terminal
import Sos.Kernel.Printed
