import Ns3.Lib.Loop
import Ns3.Fec.Packet
import Ns3.Fec.Table
import Ns3.Fec.Agent
import Ns3.Fec.Encode
import Ns3.Tcp.RateControl
import Ns3.Tcp.RateFloor
import Ns3.Fec.Rounds
import Ns3.Fec.Log
import Ns3.Fec.Live
import Ns3.Fec.Requests
import Ns3.Fec.Forward
import Ns3.Fec.ForwardRuns
import Ns3.Fec.RoundShift
import Ns3.Lib.Chunks
import Ns3.Network.SerialArithmetic
import Ns3.Tcp.RxBuffer
import Ns3.Tcp.RxLayout
import Ns3.Tcp.RxSack
import Ns3.Tcp.RxBound
import Ns3.Tcp.Connection
import Ns3.Tcp.TxPipe
import Ns3.Tcp.TxTwin
import Ns3.Tcp.CongState
import Ns3.Tcp.TxLost
import Ns3.Tcp.TxNextSeg
import Ns3.Tcp.FecSender
import Ns3.Tcp.PrrRecovery
import Ns3.Core.Time
import Ns3.Core.HeapScheduler
import Ns3.Core.CalendarRuns
import Ns3.Core.CalendarRefines
import Ns3.Core.EventSchedulers
import Ns3.Core.DefaultSimulatorImpl
import Ns3.Core.SimulatorRuns
import Ns3.Network.BufferRuns
import Ns3.Network.PacketRuns
import Ns3.Network.PacketTagRuns
import Ns3.Network.NixRoute
import Ns3.Network.PacketSerialize
import Ns3.Internet.Ipv4Codec
import Ns3.Internet.TcpCodec
import Ns3.TrafficControl.Conservation
import Ns3.TrafficControl.Transparency
import Ns3.TrafficControl.TbfConformance
import Ns3.TrafficControl.CoDelDrain
import Ns3.TrafficControl.CoDelLaw
import Ns3.TrafficControl.FqCoDelSchedule
import Ns3.TrafficControl.FqCoDelOrder
import Ns3.SixLowPan.Reassembly
import Ns3.Wifi.MacRxMiddle
import Ns3.Wifi.ReorderBuffer
import Ns3.Wifi.TransmitWindow
import Ns3.Lte.AmReceiveState
import Ns3.Lte.AmTransmitRuns
import Ns3.Lte.RlcRoundTrip
import Ns3.Lte.AmStatus
import Ns3.Lte.UmReceiveState
import Ns3.Internet.Ipv4AddressGenerator
import Ns3.Internet.Ipv4EndPointDemux
import Ns3.Internet.NextHops
import Ns3.Internet.ReForwardUp
import Ns3.Internet.Ipv4Fragments
import Ns3.Internet.Ipv4StaticRouting
import Ns3.Internet.TcpParse
import Ns3.Internet.Ipv4Send
import Ns3.Internet.ArpRuns
import Ns3.Lib.Segments
import Ns3.Lte.SduDelivery
import Ns3.Lte.UmDelivery
import Ns3.Network.Crc32
import Ns3.Wifi.MsduAggregator
