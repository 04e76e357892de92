import Os161.Thread.Semaphore
import Os161.Thread.CondVar
import Os161.Proc.Process
import Os161.Proc.WaitExit
import Os161.Proc.Table
import Os161.Proc.Pids
import Os161.Proc.Lookup
import Os161.Base.Heap
import Os161.Base.Sharing
import Os161.File.Layer
import Os161.File.Calls
import Os161.File.Refcount
import Os161.Base.Memory
import Os161.Io.Uio
import Os161.Io.Lhd
import Os161.Sfs.BlockIo
import Os161.File.Frame
import Os161.Proc.Life
import Os161.Proc.LifeSpec
import Os161.Proc.Parents
import Os161.Proc.Termination
import Os161.Proc.LifeInv
import Os161.Proc.Getpid
import Os161.File.Nfiles
import Os161.Base.Serial
import Os161.File.Transfer
import Os161.File.Offsets
import Os161.Syscall.Handlers
import Os161.Syscall.Syscall
import Os161.Base.Places
import Os161.Thread.Schedule
import Os161.Thread.OnePlace
import Os161.Base.Chain
import Os161.Vm.Kmalloc
import Os161.Vm.KmallocInv
import Os161.Vm.HeapBlocks
import Os161.Thread.States
import Os161.Vfs.Names
import Os161.Base.References
import Os161.File.Descriptors
import Os161.File.References
import Os161.Vm.Dumbvm
import Os161.Vm.Spaces
import Os161.Vm.Isolation
import Os161.Semfs.Sem
import Os161.Semfs.Wakeups
import Os161.Base.LockCode
import Os161.Base.LockOrder
import Os161.Syscall.LockPaths
import Os161.Syscall.Deadlock
import Os161.Semfs.Vnops
import Os161.Semfs.Deadlock
import Os161.Syscall.UserIo
import Os161.Syscall.UserSpace
import Os161.File.Bounds
import Os161.File.Opening
import Os161.File.Modes
import Os161.File.Seeks
import Os161.Proc.Create
import Os161.Vm.CopyInOut
import Os161.Syscall.ExecArgs
import Os161.Syscall.Exec
import Os161.Base.Bits
import Os161.Base.Fallible
import Os161.Sfs.Bitmap
import Os161.Sfs.Volume
import Os161.Sfs.Mount
import Os161.Sfs.Sync
import Os161.Sfs.Bmap
import Os161.Sfs.Itrunc
import Os161.Sfs.Inode
import Os161.Sfs.Consistency
import Os161.Sfs.FileIo
import Os161.Sfs.FileWrite
import Os161.Base.Bump
import Os161.Vm.Ram
import Os161.Thread.Ipi
import Os161.Vfs.Biglock
import Os161.Thread.Migration
import Os161.Thread.Interrupts
import Os161.Thread.IplCount
import Os161.Thread.IplSwitch
import Os161.Vm.Pagerefs
import Os161.Vm.KmallocPages
import Os161.Vm.KmallocSizes
import Os161.Vm.UserBytes
import Os161.Syscall.LoadElf
import Os161.Vm.AsCopy
import Os161.Io.Console
import Os161.Thread.OneCpu
import Os161.Thread.SleepLocked
import Os161.Io.UioMove
import Os161.Base.Traced
import Os161.Io.Device
import Os161.Vm.CopyFault
import Os161.Base.Ring
import Os161.Io.ConsoleInput
import Os161.Io.LhdThreads
import Os161.Semfs.Creat
import Os161.Base.LockRun
import Os161.Semfs.Contents
import Os161.Semfs.Lifecycle
import Os161.Semfs.Getdirentry
import Os161.Vfs.Lookup
import Os161.Vfs.Grammar
import Os161.Vfs.Path
import Os161.Base.Lanes
import Os161.Lib.Bswap
import Os161.Io.Ltimer
import Os161.Base.Acyclic
import Os161.Lib.Kgets
import Os161.Thread.Hangman
import Os161.Base.Object
import Os161.Lib.BitmapSet
import Os161.Base.Block
import Os161.Lib.PtrArray
import Os161.Base.Dlist
import Os161.Thread.Threadlist
import Os161.Io.Emu
import Os161.Proc.Waitpid
import Os161.Base.Owners
import Os161.Base.Slots
import Os161.Base.Spec
import Os161.Sfs.Dir
import Os161.Sfs.Filesystem
import Os161.Sfs.Remount
