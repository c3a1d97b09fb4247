import Os161.Libc.Memmove
import Os161.Libc.Number
import Os161.Libc.Format
import Os161.Libc.Malloc
import Os161.Libc.Execvp
import Os161.Kern.BitmapSet
import Os161.Kern.Array
import Os161.Kern.Bswap
import Os161.Kern.Kgets
import Os161.Kern.Kmalloc.Enough
import Os161.Kern.Kmalloc.Table
import Os161.Kern.Kmalloc.Walk
import Os161.Dev.Geometry
import Os161.Dev.Emu
import Os161.Dev.LhdRefine
import Os161.Dev.Console
import Os161.Dev.ConsoleInput
import Os161.Sfs.NoBytes
import Os161.Sfs.Offsets
import Os161.Sfs.Positions
import Os161.Sfs.Host
import Os161.Sfs.Reclaim
import Os161.Sfs.Names
import Os161.Sfs.Freemap
import Os161.Sfs.Dumpsfs
import Os161.Sfsck.InodeTable
import Os161.Sfsck.Freemap
import Os161.Thread.Semaphore
import Os161.Thread.Ipi
import Os161.Thread.Hangman
import Os161.Thread.Migration
import Os161.Thread.Threadlist
import Os161.Vfs.Semfs
import Os161.Vfs.Bootfs
import Os161.Vfs.SemList
import Os161.Vm.Ram
import Os161.Vm.Regions
import Os161.Vm.Copystr
import Os161.Bin.Tac
