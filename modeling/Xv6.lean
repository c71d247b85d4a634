import Xv6.Lib.RingBuf
import Xv6.Lib.Run
import Xv6.Lib.DList
import Xv6.Lib.LinearDList
import Xv6.Lib.Store
import Xv6.Lib.Window
import Xv6.Lib.SlotStore
import Xv6.Lib.Bits
import Xv6.Lib.Regex
import Xv6.Lib.Loop
import Xv6.Lib.Lines
import Xv6.Lib.SlotTable
import Xv6.Model.Param
import Xv6.Model.Pipe
import Xv6.Model.Console
import Xv6.Model.Bio
import Xv6.Model.Log
import Xv6.Model.Proc
import Xv6.Model.Kalloc
import Xv6.Model.SwapFile
import Xv6.Model.File
import Xv6.Model.SwapMap
import Xv6.Model.Vm
import Xv6.Model.Syscall
import Xv6.Model.Exec
import Xv6.Model.Fs
import Xv6.Model.Trap
import Xv6.Model.Printf
import Xv6.Model.Iterator
import Xv6.Model.Kmalloc
import Xv6.Model.Path
import Xv6.Model.Sysfile
import Xv6.Model.LinkedList
import Xv6.Model.Grep
import Xv6.Model.UnorderedMap
import Xv6.Model.Shell
import Xv6.Analysis.Pipe
import Xv6.Analysis.Console
import Xv6.Analysis.Bio
import Xv6.Analysis.Log
import Xv6.Analysis.Proc
import Xv6.Analysis.SwapFile
import Xv6.Analysis.File
import Xv6.Analysis.Pgdir
import Xv6.Analysis.Kvm
import Xv6.Analysis.Fault
import Xv6.Analysis.Shrink
import Xv6.Analysis.Syscall
import Xv6.Analysis.Exec
import Xv6.Analysis.Fork
import Xv6.Analysis.Fs
import Xv6.Analysis.Mkfs
import Xv6.Analysis.Sbrk
import Xv6.Analysis.Truncate
import Xv6.Analysis.Printf
import Xv6.Analysis.Iterator
import Xv6.Analysis.Copyout
import Xv6.Analysis.Kmalloc
import Xv6.Analysis.Path
import Xv6.Analysis.InodeIo
import Xv6.Analysis.LinkedList
import Xv6.Analysis.Swap
import Xv6.Analysis.Grep
import Xv6.Analysis.UnorderedMap
import Xv6.Analysis.Shell
import Xv6.Analysis.ShellPrint
import Xv6.Analysis.InodeWrite
import Xv6.Analysis.FreeBlocks
import Xv6.Analysis.Directory
import Xv6.Analysis.Itrunc
import Xv6.Analysis.Holes
import Xv6.Analysis.Frame
import Xv6.Analysis.Unlink
