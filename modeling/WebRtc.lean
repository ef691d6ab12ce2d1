import WebRtc.Rtcp.TransportFeedbackRoundTrip
import WebRtc.Congestion.ReceiveStatus
import WebRtc.Dcsctp.ReceivedTsns
import WebRtc.Dcsctp.NoPrematureRelease
import WebRtc.Dcsctp.ShutdownSafety
import WebRtc.Congestion.ReportingLaw
import WebRtc.Congestion.PeriodicFeedback
import WebRtc.Congestion.FeedbackPacing
import WebRtc.Dcsctp.ReassemblyQueue
import WebRtc.Dcsctp.InterleavedReassembly
import WebRtc.Dcsctp.DelayedAck
import WebRtc.Dcsctp.OrderedDelivery
import WebRtc.EventLog.DeltaRoundTrip
import WebRtc.Rtp.PacketHistoryIndex
import WebRtc.Video.NackInvariant
import WebRtc.Pacing.PacketAge
import WebRtc.Video.FrameBufferRuns
import WebRtc.Video.FrameDependencies
import WebRtc.Video.PacketBufferRuns
import WebRtc.Video.LossNotificationController
import WebRtc.Dcsctp.ForwardTsn
import WebRtc.Dcsctp.MissIndications
import WebRtc.Dcsctp.ReliableMessages
import WebRtc.Dcsctp.SendWindows
import WebRtc.Audio.RedBounds
import WebRtc.Rtp.Vp9RoundTrip
import WebRtc.Rtp.StreamStatistician
import WebRtc.Rtp.FlexfecHeader
import WebRtc.PingSelection
import WebRtc.StunMessage
