import Ns3.Aodv.RequestQueue.History
import Ns3.Aodv.Wormhole.Probe
import Ns3.Aodv.Network
import Ns3.Core.HeapScheduler.Queue
import Ns3.Core.CalendarScheduler.Queue
import Ns3.Core.DefaultSimulatorImpl.Discipline
import Ns3.Network.PacketTagList.Verification
import Ns3.Wifi.BlockAckManager.Verification
import Ns3.Wifi.BlockAckExchange
import Ns3.Internet.Ipv4Fragmentation.Verification
import Ns3.Lte.LteRlcAm.Verification
import Ns3.Lte.LteRlcUm.Verification
import Ns3.Olsr.MprComputation.Verification
import Ns3.Network.Packet.Verification
import Ns3.Internet.Rip.Verification
import Ns3.Internet.Rip.ShortestPaths
import Ns3.Olsr.Flooding.Network
import Ns3.Aodv.Route.Replace
import Ns3.Aodv.Route.Neighbor
import Ns3.Aodv.Route.Unidirectional
import Ns3.Aodv.Route.Discovery.Necessity
import Ns3.Aodv.Wormhole.RttStatistics
import Ns3.Aodv.Sockets.InStep
import Ns3.TrafficControl.FqCoDelQueueDisc.Fairness
import Ns3.Internet.ArpL3Protocol.Packets
import Ns3.Dsr.LinkCache.Verification
import Ns3.Dsr.PathCache.Verification
import Ns3.Network.Buffer.Iterator
import Ns3.Network.Buffer.Serialization
import Ns3.Internet.Ipv4Fragmentation.Fragmenter
import Ns3.Wifi.RecipientBlockAckAgreement.Flush
import Ns3.Internet.Ipv4Fragmentation.Timeout
import Ns3.Internet.TcpRxBuffer.Window
import Ns3.Internet.TcpRxBuffer.Sack
import Ns3.Internet.TcpTxBuffer.Lost
import Ns3.Internet.TcpTxBuffer.NextSeg
import Ns3.Internet.TcpConnection
import Ns3.Internet.Rip.CompleteUpdates
import Ns3.Lte.LteRlcAmHeader.RoundTrip
import Ns3.Network.NixVector.Stack
import Ns3.NixVectorRouting.Caches.Verification
import Ns3.Olsr.HnaRoutingTable
import Ns3.Olsr.OlsrHeader.Verification
import Ns3.Olsr.TopologyFreshness
import Ns3.SixLowPan.SixLowPanNetDevice
import Ns3.TrafficControl.CobaltQueueDisc.Newton
import Ns3.TrafficControl.TbfQueueDisc.Verification
import Ns3.Wifi.CtrlBAckResponseHeader.RoundTrip
import Ns3.Network.SequenceNumber.Wrapping
import Ns3.Internet.Ipv4StaticRouting.Lookup
import Ns3.Internet.TcpHeader
