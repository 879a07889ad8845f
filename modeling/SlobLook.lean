import SlobLook.Block.Request
import SlobLook.Block.Elevator
import SlobLook.Block.Look
import SlobLook.Block.Queue
import SlobLook.Block.Run
import SlobLook.Block.Head
import SlobLook.Block.Driver
import SlobLook.Lib.Cover
import SlobLook.Lib.Walk
import SlobLook.Lib.Enum
import SlobLook.Slob.Block
import SlobLook.Slob.Alloc
import SlobLook.Slob.Free
import SlobLook.Slob.Carve
import SlobLook.Slob.Heap
import SlobLook.Slob.Align
import SlobLook.Slob.Scan
import SlobLook.Slob.AllocSpec
import SlobLook.Slob.Insert
import SlobLook.Slob.FreeSpec
import SlobLook.Slob.Run
import SlobLook.Slob.BestFit
import SlobLook.Slob.Stats
import SlobLook.Slob.Kmalloc
import SlobLook.Lib.Words
import SlobLook.Slob.Frame
import SlobLook.Slob.Header
import SlobLook.Slob.KmallocRun
import SlobLook.Slob.Layout
import SlobLook.Block.Contig
import SlobLook.Block.Lookup
import SlobLook.Block.Bios
import SlobLook.Block.Progress
