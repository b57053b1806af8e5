import SocketCPlusPlus.Common.Handshake
import SocketCPlusPlus.Common.HandshakeVerdict
import SocketCPlusPlus.General.Base64
import SocketCPlusPlus.General.BoundedQueue
import SocketCPlusPlus.General.BoundedString
import SocketCPlusPlus.General.FixedLengthString
import SocketCPlusPlus.General.FixedString
import SocketCPlusPlus.General.TextComparison
import SocketCPlusPlus.NetworkCommon.ServerLog
import SocketCPlusPlus.Packets.CommonTypes
import SocketCPlusPlus.Packets.DataRow
import SocketCPlusPlus.Packets.FactoryLifetimes
import SocketCPlusPlus.Packets.FloatCompressed
import SocketCPlusPlus.Packets.RecycledPackets
import SocketCPlusPlus.Packets.Registration
import SocketCPlusPlus.Packets.Relaying
import SocketCPlusPlus.Packets.SerializedVectors
import SocketCPlusPlus.Packets.TableCopies
import SocketCPlusPlus.Socket.ClientSession
import SocketCPlusPlus.Socket.ConnectionIds
import SocketCPlusPlus.Socket.ConnectionLists
import SocketCPlusPlus.Socket.CutFrames
import SocketCPlusPlus.Socket.DaytimeServer
import SocketCPlusPlus.Socket.Delivery
import SocketCPlusPlus.Socket.EndToEnd
import SocketCPlusPlus.Socket.EndpointTrail
import SocketCPlusPlus.Socket.LoopProgress
import SocketCPlusPlus.Socket.PacketConservation
import SocketCPlusPlus.Socket.PacketObserver
import SocketCPlusPlus.Socket.ReadBounds
import SocketCPlusPlus.Socket.ReceivedLines
import SocketCPlusPlus.Socket.Reschedule
import SocketCPlusPlus.Socket.SendOwnership
import SocketCPlusPlus.Socket.ServerSocket
import SocketCPlusPlus.Socket.ServerToClient
import SocketCPlusPlus.Socket.SessionShutdown
import SocketCPlusPlus.Socket.SharedFactory
import SocketCPlusPlus.Socket.StaleBytes
import SocketCPlusPlus.Socket.WriteChain
import SocketCPlusPlus.ThreadedServer.Network
import SocketCPlusPlus.ThreadedServer.ServiceLoop
import SocketCPlusPlus.ThreadedServer.UDPServer
import SocketCPlusPlus.Utils.Checksum
import SocketCPlusPlus.Utils.Conversions
