import MyKernel.Kmalloc.Contents
import MyKernel.Kmalloc.Alignment
import MyKernel.Kmalloc.Capacity
import MyKernel.Loader.Reloc
import MyKernel.Fat32.Names
import MyKernel.Fat32.EntryUpdate
import MyKernel.Fat32.Failure
import MyKernel.Sched.Switch
import MyKernel.Syscall.Open
import MyKernel.Syscall.Handler
import MyKernel.Calc.Power
import MyKernel.Install.Gpt
import MyKernel.Install.Crc
import MyKernel.Install.Image
import MyKernel.Boot.Stage2
import MyKernel.Boot.Volume
import MyKernel.Paging.Split
import MyKernel.Shell.Safety
import MyKernel.Mlang.Blocks
import MyKernel.Mlang.Limits
import MyKernel.Vfs.Resolve
import MyKernel.RamFs.Component
import MyKernel.RamFs.Paths
import MyKernel.RamFs.Concurrent
import MyKernel.Fat32.Endless
import MyKernel.Fat32.Unlink
import MyKernel.Fat32.Buffer
import MyKernel.Vga.Terminal
import MyKernel.Malloc.Heap
import MyKernel.Sched.Slices
import MyKernel.Keyboard.Queue
import MyKernel.Keyboard.Shift
import MyKernel.Mouse.Motion
import MyKernel.Mlang.Condition
import MyKernel.Shell.Completion
import MyKernel.Mlang.Agreement
import MyKernel.Loader.Inside
import MyKernel.Loader.Lookup
import MyKernel.Loader.Closure
import MyKernel.Sound.Tone
import MyKernel.Display.WorkArea
import MyKernel.Settings.Config
import MyKernel.Display.Compose
import MyKernel.Display.Cursor
import MyKernel.Desktop.Clicks
import MyKernel.Fat32.Mirror
import MyKernel.Fat32.Atomic
import MyKernel.Snake.Game
