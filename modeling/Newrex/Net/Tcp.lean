import Newrex.Net.Basic

/-!
# The TCP responder

`send_tcp_packet` and `handle_tcp_packet` of `drivers/rtl8139.c`. There is one
connection, in the global variables: its state, the endpoint that opened it, and the
two sequence numbers.
-/

namespace Newrex

open LittleEndian

/-! ## Fields of the TCP header -/

def tcpSrcPort (packet : Nat → UInt8) (off : Nat) : Nat := ntohs (load packet 2 off)
def tcpDestPort (packet : Nat → UInt8) (off : Nat) : Nat := ntohs (load packet 2 (off + 2))
def tcpSeqNum (packet : Nat → UInt8) (off : Nat) : Nat := ntohl (load packet 4 (off + 4))
def tcpAckNum (packet : Nat → UInt8) (off : Nat) : Nat := ntohl (load packet 4 (off + 8))

/-- The field `flags`: the header length in words, and the flags. -/
def tcpFlagsField (packet : Nat → UInt8) (off : Nat) : Nat := ntohs (load packet 2 (off + 12))
def tcpFlags (packet : Nat → UInt8) (off : Nat) : Nat := tcpFlagsField packet off &&& 0x3F

namespace Net

/-! ## Sending -/

/-- The pseudo header and the TCP header, over which the checksum is computed. -/
def pseudoHeader (packet : Nat → UInt8) (destIp : IpAddress) : Nat → UInt8 :=
  let b := storeBytes (fun _ => 0) 0 myIp.toList
  let b := storeBytes b 4 destIp.toList
  let b := storeBytes b 8 [0, 6]
  let b := store b 2 10 (ntohs tcpHeaderSize)
  storeBytes b 12 ((List.range tcpHeaderSize).map fun i => packet (34 + i))

/-- The frame that `send_tcp_packet` builds. All its 54 bytes are written. -/
def tcpFrame (s : Net) (destIp : IpAddress) (srcPort destPort seq ack flags : Nat) : List UInt8 :=
  let ethLen := ethHeaderSize + ipv4HeaderSize + tcpHeaderSize
  let packet := storeBytes (fun _ => 0) 6 s.myMac.toList
  let destMac := (s.arpResolve destIp).getD (Vector.replicate 6 0xFF)
  let packet := storeBytes packet 0 destMac.toList
  let packet := store packet 2 12 (ntohs 0x0800)
  -- the IPv4 header
  let packet := storeBytes packet 14 [0x45, 0]
  let packet := store packet 2 16 (ntohs (ipv4HeaderSize + tcpHeaderSize))
  let packet := store packet 2 18 (ntohs 1)
  let packet := store packet 2 20 0
  let packet := storeBytes packet 22 [64, 6]
  let packet := store packet 2 24 0
  let packet := storeBytes packet 26 myIp.toList
  let packet := storeBytes packet 30 destIp.toList
  let packet := store packet 2 24 (ipChecksum packet 14 ipv4HeaderSize)
  -- the TCP header
  let packet := store packet 2 34 (ntohs srcPort)
  let packet := store packet 2 36 (ntohs destPort)
  let packet := store packet 4 38 (ntohl seq)
  let packet := store packet 4 42 (ntohl ack)
  let packet := store packet 2 46 (ntohs ((5 <<< 12) ||| flags))
  let packet := store packet 2 48 (ntohs 8192)
  let packet := store packet 2 50 0
  let packet := store packet 2 52 0
  let packet := store packet 2 50 (ipChecksum (pseudoHeader packet destIp) 0 32)
  (List.range ethLen).map packet

/-- `send_tcp_packet`. -/
def sendTcpPacket (s : Net) (destIp : IpAddress) (srcPort destPort seq ack flags : Nat) : Net :=
  s.rtl8139SendPacket (s.tcpFrame destIp srcPort destPort seq ack flags)

/-! ## Receiving -/

/-- The answer to the endpoint of the connection. -/
def reply (s : Net) (flags : Nat) : Net :=
  s.sendTcpPacket s.tcpRemoteIp tcpLocalPort s.tcpRemotePort s.tcpSeq s.tcpAck flags

/-- The first branch: a SYN opens a connection, whatever the state is. -/
def openConnection (s : Net) (packet : Nat → UInt8) (off : Nat) : Net :=
  let s := { s with
    tcpRemotePort := tcpSrcPort packet off
    tcpRemoteIp := ipSrc packet
    tcpAck := add32 (tcpSeqNum packet off) 1
    tcpSeq := 2000
    tcpState := .synRcvd }
  let s := s.reply 0x12
  { s with tcpSeq := add32 s.tcpSeq 1 }

/-- A byte of the payload as it is printed: `char` is signed, so that the upper half of
the bytes fails the first comparison. -/
def printable (c : UInt8) : UInt8 := if 32 ≤ c ∧ c ≤ 126 then c else 46

/-- `tcp_header_len` and `data_len`. -/
def tcpHeaderLen (packet : Nat → UInt8) (off : Nat) : Nat :=
  ((tcpFlagsField packet off >>> 12) &&& 0x0F) * 4
def tcpDataLen (packet : Nat → UInt8) (off ipHeaderLen : Nat) : Int :=
  (ipLen packet : Int) - ipHeaderLen - tcpHeaderLen packet off

/-- The payload at `data` is printed, at most 128 bytes of it. -/
def printData (s : Net) (packet : Nat → UInt8) (data dataLen : Nat) : Net :=
  let s := s.printString "\n[TCP Data] Received: "
  let s := (List.range (min dataLen 128)).foldl
    (fun s i => s.printChar (printable (packet (data + i)))) s
  s.printString "\n"

/-- The third branch: payload is printed and acknowledged. -/
def receiveData (s : Net) (packet : Nat → UInt8) (off ipHeaderLen : Nat) : Net :=
  let dataLen := tcpDataLen packet off ipHeaderLen
  if dataLen > 0 then
    let s := s.printData packet (off + tcpHeaderLen packet off) dataLen.toNat
    let s := { s with tcpAck := add32 (tcpSeqNum packet off) dataLen.toNat }
    s.reply 0x10
  else s

/-- The branches on SYN, ACK and PSH. -/
def handleTcpSegment (s : Net) (packet : Nat → UInt8) (off ipHeaderLen : Nat) : Net :=
  let flags := tcpFlags packet off
  if flags &&& 0x02 ≠ 0 then s.openConnection packet off
  else if flags &&& 0x10 ≠ 0 ∧ s.tcpState = .synRcvd then
    { s with tcpState := .established }.printString
      "\n[TCP Connection] Established connection with remote host!\n"
  else if flags &&& 0x08 ≠ 0 ∨ flags &&& 0x10 ≠ 0 then s.receiveData packet off ipHeaderLen
  else s

/-- The branch on FIN. -/
def handleTcpFin (s : Net) (packet : Nat → UInt8) (off : Nat) : Net :=
  if tcpFlags packet off &&& 0x01 ≠ 0 then
    let s := { s with tcpAck := add32 (tcpSeqNum packet off) 1 }
    let s := s.reply 0x11
    { s with tcpState := .closed }.printString
      "\n[TCP Connection] Connection closed by remote host.\n"
  else s

/-- `handle_tcp_packet`; it does not use `size`. -/
def handleTcpPacket (s : Net) (packet : Nat → UInt8) (payloadOffset ipHeaderLen : Nat) : Net :=
  if tcpDestPort packet payloadOffset ≠ tcpLocalPort then s
  else (s.handleTcpSegment packet payloadOffset ipHeaderLen).handleTcpFin packet payloadOffset

end Net

end Newrex
