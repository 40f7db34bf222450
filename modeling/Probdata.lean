import Probdata.Lib.Running
import Probdata.Lib.Interval
import Probdata.Lib.Smoothed
import Probdata.Lib.Text.Number
import Probdata.Lib.Text.Format
import Probdata.Lib.Text.Stream
import Probdata.Lib.Text.Double
import Probdata.Lib.Text.Fixed
import Probdata.Lib.Trace
import Probdata.Lib.Wire.Prog
import Probdata.Lib.Wire.Play
import Probdata.Lib.Wire.Lockstep
import Probdata.Lib.Wire.Path
import Probdata.Lib.Wire.Channel
import Probdata.Lib.Wire.Ends
import Probdata.Lib.Wire.Meeting
import Probdata.Lib.Wire.Failing
import Probdata.Lib.Bytes
import Probdata.Lib.Layout
import Probdata.Lib.Handle
import Probdata.Session.Control
import Probdata.Session.Transfer
import Probdata.Session.Prob
import Probdata.Session.Params
import Probdata.Session.Exchange
import Probdata.Session.Server
import Probdata.Session.Client
import Probdata.Session.Connect
import Probdata.Session.CommandLine
import Probdata.Session.Conversation
import Probdata.Session.InStep
import Probdata.Session.MemoryToMemory
import Probdata.Session.UdtOnly
import Probdata.Session.Undisturbed
import Probdata.Session.Served
import Probdata.Session.Recommend
import Probdata.Session.Handlers
import Probdata.Session.Whole
import Probdata.Session.Memory
import Probdata.Session.Reads
import Probdata.Session.Arguments
import Probdata.Session.Rtt
import Probdata.Session.Complete
import Probdata.Session.Failing
import Probdata.Fastprof.Ctrl
import Probdata.Fastprof.Step
import Probdata.Fastprof.Search
import Probdata.Fastprof.Ledger
import Probdata.Fastprof.SearchRun
import Probdata.Fastprof.Turns
import Probdata.Fastprof.Client
import Probdata.Fastprof.ClientSearch
import Probdata.Fastprof.Tcp
import Probdata.Fastprof.Udt
import Probdata.Fastprof.Length
import Probdata.Fastprof.Bookkeeping
import Probdata.Fastprof.Agree
import Probdata.Fastprof.Slope
import Probdata.Fastprof.Window
import Probdata.Fastprof.Srtt
import Probdata.Fastprof.Box
import Probdata.Fastprof.BestTest
import Probdata.Fastprof.Kept
import Probdata.Fastprof.Returned
import Probdata.Fastprof.Rtt
import Probdata.Fastprof.Record
import Probdata.Fastprof.History
import Probdata.Fastprof.Compose
import Probdata.Fastprof.Printed
import Probdata.Fastprof.Results
import Probdata.Fastprof.Sessions
import Probdata.Session.Handover
import Probdata.Server.UdtWorker
import Probdata.Server.Lifetime
import Probdata.Server.TcpWorker
import Probdata.Server.Threads
import Probdata.Server.Ignored
import Probdata.Fastprof.Visited
import Probdata.Session.NoLess
