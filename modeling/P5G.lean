import P5G.Machine
import P5G.Trace.Core
import P5G.Trace.Invariant
import P5G.Trace.Frame
import P5G.Trace.Queue
import P5G.Trace.TraceRing
import P5G.Trace.Producers
import P5G.Trace.Consumers
import P5G.Trace.Accounting
import P5G.Trace.GnbTracer
import P5G.Trace.Shutdown
import P5G.Trace.Overflow
import P5G.Rtp.Header
import P5G.Rtp.Depacketizer
import P5G.Rtp.Packetization
import P5G.Rtp.Assembly
import P5G.Rtp.Losses
import P5G.Rtp.Reception
import P5G.Rtp.Exact
import P5G.Rtp.Payload
import P5G.Rtp.Grouping
import P5G.Rtp.Conservation
import P5G.Rtp.IntCounters
import P5G.Rtp.Gathered
import P5G.Rtp.Replay
import P5G.Rtp.Placement
import P5G.Rtp.AnyNetwork
import P5G.Rtp.LossRuns
import P5G.Rtp.Fragmentation
import P5G.Rtp.Oversize
import P5G.Rtp.Rotation
import P5G.Gnb.Sdu
import P5G.Dict
import P5G.Control.Json
import P5G.Control.Server
import P5G.Control.Messages
import P5G.Control.Apps
import P5G.Control.Frame
import P5G.Control.Dispatch
import P5G.Control.Rejected
import P5G.Control.Provenance
import P5G.Control.AckRouting
import P5G.Control.System
import P5G.Control.Protocol
import P5G.Control.Agreement
import P5G.Control.Destination
import P5G.Control.Tables
import P5G.Control.Register
import P5G.Text.Numeral
import P5G.Text.Lines
import P5G.Text.Printf
import P5G.Control.Client
import P5G.Trace.Reader
import P5G.Trace.Formats
import P5G.Trace.Kinds
import P5G.Trace.RoundTrip
import P5G.Trace.Torn
import P5G.Rtcp.Compound
import P5G.Rtcp.Grammar
import P5G.Rtcp.Walkers
import P5G.Rtp.AnnexB
import P5G.Rtp.AccessUnits
import P5G.Signaling.Relay
import P5G.Signaling.Answers
import P5G.Numbered
import P5G.Seqlock
import P5G.Sender.Rungs
import P5G.Sender.Grid
import P5G.Sender.Slots
import P5G.Sender.FirstUnit
import P5G.Sender.Switching
import P5G.Sender.Stamps
import P5G.Gst.GridVideoSource
import P5G.Gst.Overload
import P5G.Gst.Arrivals
import P5G.Gst.Snapshot
import P5G.Gst.Lookup
import P5G.Gst.JitterWindow
import P5G.Bisect
import P5G.Analysis.FusionLoad
import P5G.Analysis.ExpectedFrames
import P5G.Analysis.BaseGrid
import P5G.Counter
import P5G.Timeline
import P5G.Analysis.Frontier
import P5G.Analysis.Predictors
import P5G.Analysis.Causality
import P5G.Trace.Cut
import P5G.Analysis.VerifyRun
import P5G.Analysis.Proximity
import P5G.Ring
import P5G.Webrtc.DecoderLedger
import P5G.Webrtc.GridVideoCapturer
import P5G.Webrtc.FrameIdentity
import P5G.Gst.RtcpPeer
import P5G.Text.CliArgs
import P5G.Signaling.Routing
import P5G.Signaling.System
import P5G.Signaling.Provenance
import P5G.Signaling.Peers
import P5G.Signaling.Agreement
import P5G.Combinations
import P5G.Analysis.GroupDeadline
import P5G.Compose
import P5G.Rtp.Tally
import P5G.Ffmpeg.Receiver
import P5G.Ffmpeg.Publication
import P5G.Ffmpeg.Accounts
import P5G.Sender.Air
import P5G.Ffmpeg.EndToEnd
import P5G.Analysis.Recorded
import P5G.Analysis.Harq
import P5G.Analysis.HarqBlocks
import P5G.Analysis.LossCount
import P5G.Analysis.OneWayDelay
import P5G.Sender.SourceList
