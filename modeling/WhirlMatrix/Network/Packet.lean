/-
# Packets and frames

The data that the network carries: `network/address.hpp`, `network/packet.hpp`
and `network/frame.hpp`, and the fields of a client socket (`network/socket.cpp`).

The `origin` of a packet is proof-only: it records through which client socket a
packet was sent, or in answer to which packet.  It is copied along and no function
branches on it.
-/
import WhirlMatrix.Time

namespace Whirl.Net

/-- `HostName`. -/
abbrev HostName := String

/-- `Port` is `uint16_t`. -/
abbrev Port := UInt16

/-- `Message`. -/
abbrev Message := Bytes

/-- `Address`. -/
structure Address where
  host : HostName
  port : Port
  deriving DecidableEq, Repr

/-- `Packet::Type`. -/
inductive PacketType where
  /-- User message. -/
  | data
  /-- Connection reset by peer. -/
  | reset
  /-- Keep-alive. -/
  | ping
  deriving DecidableEq, Repr

/-- `Packet::Header`; `ts` is the `Timestamp` of a connection, the number of the world
step that created it. -/
structure PacketHeader where
  type : PacketType
  sourcePort : Port
  destPort : Port
  ts : ℕ
  deriving DecidableEq, Repr

/-- A pointer to a `Link`: its index in `Network::links_`. -/
abbrev LinkId := ℕ

/-- A pointer to an object of a node process.  Every object has a number of its own, so
that a pointer to a destroyed object never points to a new one. -/
abbrev ObjectId := ℕ

/-- `ClientSocket::Impl`.  `handler` is the object that was registered for the socket;
its transport is that of the process which holds the socket. -/
structure ClientSocket where
  handler : ObjectId
  link : LinkId
  selfPort : Port
  serverPort : Port
  ts : ℕ
  deriving DecidableEq, Repr

/-- Why a packet was sent. -/
inductive Origin where
  /-- It was sent through a client socket, or is the first ping of one. -/
  | client (socket : ClientSocket)
  /-- It was sent in answer to a packet. -/
  | answer (request : Origin)
  deriving DecidableEq, Repr

/-- `Packet`. -/
structure Packet where
  header : PacketHeader
  message : Message
  origin : Origin
  deriving DecidableEq, Repr

/-- `Frame::Header`. -/
structure FrameHeader where
  sourceHost : HostName
  destHost : HostName
  sendTime : ℕ
  deriving DecidableEq, Repr

/-- `Frame`. -/
structure Frame where
  header : FrameHeader
  packet : Packet
  deriving DecidableEq, Repr

end Whirl.Net
