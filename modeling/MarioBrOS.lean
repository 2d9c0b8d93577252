import MarioBrOS.BitSearch
import MarioBrOS.Fs.Accounting
import MarioBrOS.Fs.Compaction
import MarioBrOS.Fs.Creation
import MarioBrOS.Fs.Erase
import MarioBrOS.Fs.FailedWrite
import MarioBrOS.Fs.Handshake
import MarioBrOS.Fs.InodeStore
import MarioBrOS.Fs.Isolation
import MarioBrOS.Fs.NewBlocks
import MarioBrOS.Fs.OneBlockMap
import MarioBrOS.Fs.Opening
import MarioBrOS.Fs.Pio
import MarioBrOS.Fs.Position
import MarioBrOS.Fs.Session
import MarioBrOS.Fs.Sharing
import MarioBrOS.Fs.Transfer
import MarioBrOS.Fs.Walk
import MarioBrOS.Interrupts.Preempt
import MarioBrOS.Kernel.Rendezvous
import MarioBrOS.Kernel.Switch
import MarioBrOS.Keyboard
import MarioBrOS.Lists.Calls
import MarioBrOS.Loader.LoadCode
import MarioBrOS.Malloc.Allocator
import MarioBrOS.Malloc.Extension
import MarioBrOS.Malloc.Requests
import MarioBrOS.Paging.FreePageDir
import MarioBrOS.Paging.Spaces
import MarioBrOS.Scheduler.Fifo
import MarioBrOS.Scheduler.Fork
import MarioBrOS.Scheduler.Kill
import MarioBrOS.Scheduler.Resume
import MarioBrOS.Scheduler.RoundRobin
import MarioBrOS.Scheduler.Wait
import MarioBrOS.Screen.Box
import MarioBrOS.Screen.Terminal
import MarioBrOS.Shell.Cwd
import MarioBrOS.Shell.Display
import MarioBrOS.Shell.History
import MarioBrOS.Strings.Format
import MarioBrOS.Strings.Split
