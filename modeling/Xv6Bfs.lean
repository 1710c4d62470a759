import Xv6Bfs.Proofs.ProcessTable
import Xv6Bfs.Proofs.ForkTail
import Xv6Bfs.Proofs.LogSpace
import Xv6Bfs.Proofs.FsIntegrity
import Xv6Bfs.Proofs.FsLog
import Xv6Bfs.Proofs.Sleeplock
import Xv6Bfs.Proofs.Pipe
import Xv6Bfs.Proofs.Args
import Xv6Bfs.Proofs.Console
import Xv6Bfs.Proofs.Ide
import Xv6Bfs.Proofs.Iput
import Xv6Bfs.Proofs.Deadline
import Xv6Bfs.Proofs.Kill
import Xv6Bfs.Proofs.Umalloc
import Xv6Bfs.Proofs.MkfsFiles
import Xv6Bfs.Proofs.UserMemory
import Xv6Bfs.Proofs.FileWrite
import Xv6Bfs.Proofs.LogTrace
import Xv6Bfs.Proofs.PathLookup
import Xv6Bfs.Proofs.Grep
import Xv6Bfs.Proofs.Bitmap
import Xv6Bfs.Proofs.Copyout
import Xv6Bfs.Proofs.BufList
import Xv6Bfs.Proofs.CacheRun
import Xv6Bfs.Proofs.Seed
import Xv6Bfs.Proofs.Memmove
import Xv6Bfs.Proofs.Spinlock
import Xv6Bfs.Proofs.ShellRun
import Xv6Bfs.Proofs.Waiting
