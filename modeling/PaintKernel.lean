import PaintKernel.PageConservation
import PaintKernel.MapFailure
import PaintKernel.LargePages
import PaintKernel.Unmap
import PaintKernel.Tlb
import PaintKernel.ElfProgram
import PaintKernel.UserHeap
import PaintKernel.Keyboard
import PaintKernel.KeyboardQueue
import PaintKernel.MousePackets
import PaintKernel.CursorBounds
import PaintKernel.DrawUnderCursor
import PaintKernel.Printf
import PaintKernel.PickedRegions
import PaintKernel.ScanCodes
import PaintKernel.Buttons
import PaintKernel.ClearScreen
import PaintKernel.MouseSnapshot
import PaintKernel.KernelMessages
import PaintKernel.Translate
import PaintKernel.MallocSizes
import PaintKernel.Getline
import PaintKernel.Rectangles
import PaintKernel.MappedPages
import PaintKernel.TextDrawing
import PaintKernel.FormatBounds
import PaintKernel.NumberPrinters
import PaintKernel.HexText
import PaintKernel.Strtok
import PaintKernel.Strsep
import PaintKernel.Strcmp
import PaintKernel.Descriptors
import PaintKernel.Paint
import PaintKernel.Kgets
import PaintKernel.Gexec
import PaintKernel.PaintCanvas
import PaintKernel.FreshPages
import PaintKernel.StringCopies
import PaintKernel.Pic
import PaintKernel.MouseInit
import PaintKernel.Interrupts
import PaintKernel.TextCursor
import PaintKernel.SystemCall
import PaintKernel.HeapMemory
import PaintKernel.Shell
