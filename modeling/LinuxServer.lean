import LinuxServer.Core.Store
import LinuxServer.Core.Dll
import LinuxServer.Core.DeadlineQueue
import LinuxServer.SortTimerLst.Basic
import LinuxServer.SortTimerLst.Runs
import LinuxServer.Core.Trace
import LinuxServer.Core.Countdown
import LinuxServer.TimeWheel.Lists
import LinuxServer.Core.Recorded
import LinuxServer.TimeHeap.Runs
import LinuxServer.TimeHeap.Building
import LinuxServer.TimeHeap.Growing
import LinuxServer.ProcessPool.RoundRobin
import LinuxServer.ProcessPool.Reaping
import LinuxServer.ProcessPool.Interrupts
import LinuxServer.ParseHttp.Framing
import LinuxServer.ParseHttp.Indices
import LinuxServer.HttpConn.Reading
import LinuxServer.HttpConn.Writing
import LinuxServer.HttpConn.Mappings
import LinuxServer.HttpConn.Interference
import LinuxServer.HttpConn.Responses
import LinuxServer.HttpConn.Lookup
import LinuxServer.CgiConn.Runs
import LinuxServer.CloseInactivateConn.Runs
import LinuxServer.CloseInactivateConn.Alarms
import LinuxServer.ThreadPool.Runs
import LinuxServer.ThreadPool.Bound
import LinuxServer.WebServer.Runs
import LinuxServer.WebServer.Counting
import LinuxServer.WebServer.Descriptors
import LinuxServer.ChatroomServer.Stale
import LinuxServer.ChatroomMultiprocess.Delivery
import LinuxServer.ChatroomMultiprocess.Mapping
import LinuxServer.ChatroomMultiprocess.Descriptors
import LinuxServer.ChatroomMultiprocess.Shutdown
import LinuxServer.TestEpolloneshot.Printing
import LinuxServer.TestEpolloneshot.Text
import LinuxServer.WebServer.Unanswered
import LinuxServer.ProcessPool.Forking
import LinuxServer.SortTimerLst.Destroying
import LinuxServer.TimeWheel.Destroying
import LinuxServer.Core.Synchrony
import LinuxServer.TimeWheel.Agreement
import LinuxServer.TimeHeap.Destroying
import LinuxServer.ChatroomClient.Runs
import LinuxServer.TcpudpReflect.Reflecting
import LinuxServer.Deadlock
import LinuxServer.ThreadFork
