import Ucore.Libs.RbRun
import Ucore.Libs.Strtol
import Ucore.Mm.VmmRun
import Ucore.Process.ShareRun
import Ucore.Glue.PmmRun
import Ucore.Mm.SlabRun
import Ucore.Mm.FindRun
import Ucore.Fs.ContentRun
import Ucore.Fs.TreeRun
import Ucore.Fs.SizeRun
import Ucore.Fs.Atomic
import Ucore.Fs.FileRun
import Ucore.Fs.SyncRun
import Ucore.Sync.SemRun
import Ucore.Sync.MboxMap
import Ucore.Sync.MboxRun
import Ucore.Sync.EventRun
import Ucore.Fs.Devs.Stdin
import Ucore.Schedule.SchedRun
import Ucore.Fs.FilemapRun
import Ucore.Process.InitMain
import Ucore.River.Ipe
import Ucore.River.EventLoop
import Ucore.River.Irq
import Ucore.Glue.Shootdown
import Ucore.Supervisor.Memmap
import Ucore.Fs.Sfs.Bitmap
import Ucore.Supervisor.BuddyFree
import Ucore.Fs.Pipe.Sleepers
import Ucore.Fs.PathRun
