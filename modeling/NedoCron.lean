import NedoCron.Scheduler
import NedoCron.ParserSound
import NedoCron.Lib.Loop
import NedoCron.RangeFiller
import NedoCron.Firing
import NedoCron.MinuteAccounting
import NedoCron.ClockBack
import NedoCron.Connections
import NedoCron.RunLog
import NedoCron.RunHistory
import NedoCron.OneVersion
import NedoCron.TimeLimit
import NedoCron.Restart
import NedoCron.Lib.Mirror
import NedoCron.Invalidation
import NedoCron.ParserVerdict
import NedoCron.ParseErrors
import NedoCron.ParserComplete
import NedoCron.ParserBounds
import NedoCron.StarStep
import NedoCron.Splitting
import NedoCron.ErrorText
import NedoCron.ResultLoop
import NedoCron.Conservation
import NedoCron.Isolation
import NedoCron.Extension
import NedoCron.Lib.Alarm
import NedoCron.WaitTimeout
import NedoCron.Lib.Ticker
import NedoCron.SecondsPace
import NedoCron.QueueBound
import NedoCron.InFlight
import NedoCron.Reload
import NedoCron.TimeoutStatus
import NedoCron.FinishMessage
import NedoCron.UnsentOutput
import NedoCron.Lib.Utf8
import NedoCron.Truncation
import NedoCron.Lib.Recurrence
import NedoCron.Canonical
import NedoCron.Recurring
import NedoCron.Database
import NedoCron.Installation
import NedoCron.CalendarRuns
import NedoCron.Lib.Heap
import NedoCron.ReloadMemory
import NedoCron.Progress
import NedoCron.JobServer
import NedoCron.WaitSet
import NedoCron.RunsForever
