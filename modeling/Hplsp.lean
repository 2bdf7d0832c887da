import Hplsp.MsgqueueAtomic
import Hplsp.MsgqueueProgress
import Hplsp.MsgqueueBound
import Hplsp.ThrdpoolJoins
import Hplsp.ThrdpoolProgress
import Hplsp.ThreadsafeListSound
import Hplsp.TimerList
import Hplsp.TimeOrder
import Hplsp.Slice
import Hplsp.LogScan
import Hplsp.Ownership
import Hplsp.MmapLive
import Hplsp.MmapCursors
import Hplsp.MmapFailure
import Hplsp.LogRotation
import Hplsp.LogSystem
import Hplsp.Statement
import Hplsp.LineAppend
import Hplsp.LineStamp
import Hplsp.LoggerSafety
import Hplsp.Logger
import Hplsp.Frame
import Hplsp.BufferVectorRun
import Hplsp.BufferTight
import Hplsp.BufferAttempt
import Hplsp.BufferGuards
import Hplsp.BufferCapacity
import Hplsp.BufferStaging
import Hplsp.BufferQueue
import Hplsp.Buffer
import Hplsp.Lib.Run
