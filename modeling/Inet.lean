import Inet.Common.BitVectorRefinement
import Inet.Tcp.SegmentTransmitInfoList
import Inet.Tcp.ByteStreamRcvQueue
import Inet.Tcp.MessageDelivery
import Inet.Tcp.PeerStream
import Inet.Tcp.SackReports
import Inet.Tcp.Pipe
import Inet.Tcp.NextSeg
import Inet.Tcp.SendProgress
import Inet.Tcp.ByteStreamSendQueue
import Inet.Sctp.ParseTermination
import Inet.Sctp.InitRoundTrip
import Inet.Sctp.SendOrder
import Inet.Sctp.StreamDelivery
import Inet.Sctp.Reneging
import Inet.Sctp.AdvanceAndRemove
import Inet.Ipv4.RouteNotifications
import Inet.Ipv4.FragmentReassembly
import Inet.Ipv4.AddressText
import Inet.Ipv4.RouteRules
import Inet.Ipv6.LongestPrefixMatch
import Inet.Ipv6.AddressPrinting
import Inet.Igmp.PacketLayout
import Inet.Dhcp.Leases
import Inet.Ospf.LSAAcknowledgement
import Inet.Ospf.LeastCostRoutes
import Inet.Rip.ForeignRoutes
import Inet.Ieee80211.QoSAckHandler
import Inet.Ieee80211.BlockAckReordering
import Inet.Ieee80211.ReceiveBufferWindow
import Inet.Ieee80211.FrameSequenceHandler
import Inet.Ieee80211.MsduAggregation
import Inet.Ieee80211.DuplicateRemoval
import Inet.Ieee80211.ReassemblyPurge
import Inet.Ieee80211.FragmentDelivery
import Inet.Ieee80211.BasicFragmentationPolicy
import Inet.Ieee80211.RetryCounters
import Inet.Ieee8021d.STPNetwork
import Inet.Physicallayer.Depuncturing
import Inet.Physicallayer.OFDMInterleaver
import Inet.Physicallayer.AdditiveScrambler
import Inet.Queue.WRRScheduler
import Inet.Diffserv.TokenBucketMeter
import Inet.Ethernet.LearnedPorts
import Inet.Ospf.DesignatedRouterElection
import Inet.Ieee8021d.BackupPorts
import Inet.Ospf.AgingLSAs
import Inet.Ipv4.RouteBookkeeping
import Inet.Aodv.RouteFreshness
import Inet.Igmp.RouterTimers
import Inet.Igmp.RecordTransitions
import Inet.Igmp.SocketFilters
import Inet.Sctp.StreamSchedulers
import Inet.Common.UnweightedPaths
import Inet.Ieee8021d.HelloTimer
import Inet.Ieee80211.BackoffSlots
import Inet.Igmp.QueryAnswers
