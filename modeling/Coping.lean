import Coping.Library.Bitmap
import Coping.Library.BlockHash
import Coping.Library.ByteOrder
import Coping.Library.CBuffer
import Coping.Library.CFormat
import Coping.Library.CInt
import Coping.Library.CNumber
import Coping.Library.Calls
import Coping.Library.ClassicBpf
import Coping.Library.Credentials
import Coping.Library.DecimalFraction
import Coping.Library.Json
import Coping.Library.JsonCompact
import Coping.Library.JsonObject
import Coping.Library.JsonPlain
import Coping.Library.JsonStray
import Coping.Library.Machine
import Coping.Library.Mean
import Coping.Library.MessageDigest
import Coping.Library.NewtonSqrt
import Coping.Library.OnesComplement
import Coping.Library.SineTable
import Coping.Library.Smoothing
import Coping.Library.TokenBucket
import Coping.Library.Words
import Coping.Ping.Addresses
import Coping.Ping.Basic
import Coping.Ping.Cksum
import Coping.Ping.ErrorQueue
import Coping.Ping.Filter
import Coping.Ping.Finish
import Coping.Ping.Json
import Coping.Ping.JsonArguments
import Coping.Ping.JsonLoop
import Coping.Ping.Lines
import Coping.Ping.MainLoop
import Coping.Ping.Md5
import Coping.Ping.NiEntries
import Coping.Ping.NiOptions
import Coping.Ping.NodeInfo
import Coping.Ping.Numbers
import Coping.Ping.OptionWalk
import Coping.Ping.Options
import Coping.Ping.Output
import Coping.Ping.PacketSize
import Coping.Ping.Pattern
import Coping.Ping.Pinger
import Coping.Ping.PrAddr
import Coping.Ping.Probe
import Coping.Ping.Reply
import Coping.Ping.SendLoop
import Coping.Ping.Setup
import Coping.Ping.SquareRoot
import Coping.Ping.Statistics
import Coping.Ping.TripTime
import Coping.Ping.Wire
import Coping.Ai.Arguments
import Coping.Ai.Box
import Coping.Ai.Context
import Coping.Ai.Loader
import Coping.Ai.Mechanisms
import Coping.Ai.Response
import Coping.Arping.EventLoop
import Coping.Arping.Probe
import Coping.Arping.Reply
import Coping.Clockdiff.Cksum
import Coping.Clockdiff.Measure
import Coping.Tracepath.Trace
import Coping.Verification.AdaptiveInterval
import Coping.Verification.Addcarry
import Coping.Verification.AddressCache
import Coping.Verification.Arguments
import Coping.Verification.ArpFilter
import Coping.Verification.ArpStatistics
import Coping.Verification.ArpTime
import Coping.Verification.Average
import Coping.Verification.Checksum
import Coping.Verification.ChecksumLoop
import Coping.Verification.ClockDelta
import Coping.Verification.ContextBox
import Coping.Verification.CountTest
import Coping.Verification.Display
import Coping.Verification.Duplicates
import Coping.Verification.ErrorPaths
import Coping.Verification.EscapeBuffer
import Coping.Verification.Exchange
import Coping.Verification.ExitTimer
import Coping.Verification.FinishLine
import Coping.Verification.FirstHop
import Coping.Verification.History
import Coping.Verification.HopLoop
import Coping.Verification.InFlight
import Coping.Verification.Interval
import Coping.Verification.JsonArguments
import Coping.Verification.JsonBuffer
import Coping.Verification.JsonLine
import Coping.Verification.Loader
import Coping.Verification.Loss
import Coping.Verification.MainLoop
import Coping.Verification.Md5
import Coping.Verification.MovingAverage
import Coping.Verification.NiEntries
import Coping.Verification.NiExchange
import Coping.Verification.NiOptions
import Coping.Verification.NonceCache
import Coping.Verification.Numbers
import Coping.Verification.OptionBounds
import Coping.Verification.OptionReads
import Coping.Verification.OptionText
import Coping.Verification.OptionTimes
import Coping.Verification.PacketBuffer
import Coping.Verification.PacketSize
import Coping.Verification.Pattern
import Coping.Verification.Privilege
import Coping.Verification.ProbeBytes
import Coping.Verification.ProbeNumber
import Coping.Verification.Rate
import Coping.Verification.RecordRoute
import Coping.Verification.ReplyLine
import Coping.Verification.ReplyRemarks
import Coping.Verification.ReplyTime
import Coping.Verification.Request
import Coping.Verification.Response
import Coping.Verification.ResponseScan
import Coping.Verification.SameResults
import Coping.Verification.SendLoop
import Coping.Verification.SocketFilter
import Coping.Verification.SourceRoute
import Coping.Verification.SquareRoot
import Coping.Verification.StaleBytes
import Coping.Verification.StaleBytes6
import Coping.Verification.StatisticsLine
import Coping.Verification.StoredOptions
import Coping.Verification.Trials
import Coping.Verification.TripTime
