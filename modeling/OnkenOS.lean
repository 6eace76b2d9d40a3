import OnkenOS.Gui.Focus
import OnkenOS.Gui.HitTest
import OnkenOS.Gui.Press
import OnkenOS.Gui.Drag
import OnkenOS.Gui.Fb
import OnkenOS.Gui.Pixels
import OnkenOS.Gui.Swap
import OnkenOS.Gui.Cursor
import OnkenOS.Lib.Bump
import OnkenOS.Kernel.Mm
import OnkenOS.Gui.FbHeap
import OnkenOS.Lib.SlotTable
import OnkenOS.Kernel.CString
import OnkenOS.Kernel.Fs
import OnkenOS.Kernel.FsMap
import OnkenOS.Kernel.Format
import OnkenOS.Drivers.Hardware
import OnkenOS.Apps.Terminal
import OnkenOS.Apps.TerminalOutput
import OnkenOS.Apps.TerminalLine
import OnkenOS.Apps.TerminalFits
import OnkenOS.Kernel.MmCalls
import OnkenOS.Kernel.MmBlocks
import OnkenOS.Kernel.MmBounds
import OnkenOS.Lib.Mailbox
import OnkenOS.Drivers.Ps2
import OnkenOS.Drivers.KeyStream
import OnkenOS.Drivers.MousePackets
import OnkenOS.Kernel.FsInit
import OnkenOS.Kernel.FsNames
import OnkenOS.Gui.Reorder
import OnkenOS.Gui.Stacking
import OnkenOS.Apps.Files
import OnkenOS.Apps.Yano
import OnkenOS.Apps.YanoSave
import OnkenOS.Shell.Desktop
import OnkenOS.Shell.DesktopInv
import OnkenOS.Shell.WindowPress
import OnkenOS.Shell.TopLayer
import OnkenOS.Kernel.MmAccounting
import OnkenOS.Lib.Ring
import OnkenOS.Drivers.Sound
import OnkenOS.Drivers.SoundQueue
import OnkenOS.Drivers.Mute
import OnkenOS.Drivers.Modifiers
import OnkenOS.Apps.TerminalWords
import OnkenOS.Gui.Capacity
import OnkenOS.Gui.KeyFocus
import OnkenOS.Apps.TerminalReports
import OnkenOS.Apps.TerminalComplete
import OnkenOS.Kernel.Scheduler
import OnkenOS.Shell.Os
import OnkenOS.Shell.FullTable
import OnkenOS.Shell.EditorWindows
import OnkenOS.Apps.TerminalCat
import OnkenOS.Apps.TerminalDraw
import OnkenOS.Apps.TerminalScroll
import OnkenOS.Gui.CursorRange
import OnkenOS.Kernel.TaskList
import OnkenOS.Kernel.TaskTime
import OnkenOS.Kernel.MmContents
import OnkenOS.Gui.Rect
import OnkenOS.Apps.TerminalEditing
import OnkenOS.Lib.Scan
import OnkenOS.Drivers.Pci
import OnkenOS.Drivers.RtcFormat
import OnkenOS.Drivers.RtcRead
import OnkenOS.Gui.Bmp
import OnkenOS.Gui.BmpRoundTrip
import OnkenOS.Apps.TerminalActs
import OnkenOS.Shell.KeyDispatch
import OnkenOS.Shell.TerminalExit
import OnkenOS.Apps.TerminalHexdump
import OnkenOS.Kernel.Strtok
import OnkenOS.Kernel.Sprintf
import OnkenOS.Gui.Gradient
import OnkenOS.Kernel.SprintfReads
import OnkenOS.Lib.WordStack
import OnkenOS.Lib.X86
import OnkenOS.Kernel.Interrupts
import OnkenOS.Lib.Pic8259
import OnkenOS.Kernel.Idt
import OnkenOS.Kernel.Irq
import OnkenOS.Lib.Interp
import OnkenOS.Apps.Commands
import OnkenOS.Apps.CommandRuns
import OnkenOS.Apps.CommandRules
import OnkenOS.Drivers.Typing
import OnkenOS.Shell.TypedProgram
import OnkenOS.Lib.Layers
import OnkenOS.Gui.Drawing
import OnkenOS.Lib.TextGrid
import OnkenOS.Gui.Text
import OnkenOS.Gui.Frame
import OnkenOS.Apps.TerminalScreen
import OnkenOS.Apps.YanoScreen
