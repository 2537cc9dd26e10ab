import Mdb.App.Benchmark
import Mdb.App.Frame
import Mdb.App.FrameProgress
import Mdb.App.KernelFrames
import Mdb.App.Oneshot
import Mdb.App.Setup
import Mdb.Base.Word
import Mdb.Kernel.Asm
import Mdb.Kernel.Avx2
import Mdb.Kernel.Common
import Mdb.Kernel.Events
import Mdb.Kernel.Generic
import Mdb.Kernel.Lanes
import Mdb.Kernel.Loader
import Mdb.Kernel.Native
import Mdb.Kernel.NativeVec
import Mdb.Library.Bisect
import Mdb.Library.CString
import Mdb.Library.CommandQueue
import Mdb.Library.CounterLoop
import Mdb.Library.Dispenser
import Mdb.Library.Escape
import Mdb.Library.LaneLoop
import Mdb.Library.Reaches
import Mdb.Library.RunLength
import Mdb.Library.Segments
import Mdb.Library.StepSystem
import Mdb.Library.Stopwatch
import Mdb.Library.StoreCalls
import Mdb.Library.StoreTrace
import Mdb.Library.Tally
import Mdb.Render.PixelBuffer
import Mdb.Render.RenderInvariant
import Mdb.Render.RenderLoop
import Mdb.Render.RenderPictures
import Mdb.Render.RenderProgress
import Mdb.Sched.Barrier
import Mdb.Sched.Host
import Mdb.Sched.HostYield
import Mdb.Sched.Live
import Mdb.Sched.Machine
import Mdb.Sched.Pop
import Mdb.Sched.PopProgress
import Mdb.Sched.Profile
import Mdb.Sched.Queue
import Mdb.Sched.QueueInvariant
import Mdb.Sched.Reserve
import Mdb.Sched.Round
import Mdb.Sched.RoundProgress
import Mdb.Sched.Shutdown
import Mdb.Sched.Signal
import Mdb.Sched.Split
import Mdb.Sched.TaskStats
import Mdb.Sched.Worker
import Mdb.Surface.Surface
import Mdb.Tools.ArgsParse
import Mdb.Tools.Arguments
import Mdb.Tools.CpuFeatures
import Mdb.Tools.HdrScanline
import Mdb.Tools.Hist
import Mdb.Tools.ImageHdr
import Mdb.Tools.OptionBuffers
import Mdb.Tools.OptionValues
import Mdb.Tools.Rgbe
import Mdb.Tools.RschedLanguage
import Mdb.Tools.SubOptions
import Mdb.Sched.Lifetime
