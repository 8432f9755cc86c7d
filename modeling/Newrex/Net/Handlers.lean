import Newrex.Net.Tcp

/-!
# ARP, ICMP, UDP and the dispatch of frames

The rest of the protocols of `drivers/rtl8139.c`: the senders `arp_send_request`,
`udp_send` and `icmp_send_ping`, the handlers of received frames, and
`handle_ethernet_packet`, which chooses between them. `handlerOf` is this choice alone, for
a host of any address; `handleEthernetPacket_eq` says that it is what the code makes.
-/

namespace Newrex

open LittleEndian

/-- The lengths of `arp_packet_t`, `icmp_header_t` and `udp_header_t`. -/
def arpPacketSize : Nat := 28
def icmpHeaderSize : Nat := 8
def udpHeaderSize : Nat := 8

/-! ## Fields -/

def ethType (packet : Nat → UInt8) : Nat := ntohs (load packet 2 12)

def arpOpcode (packet : Nat → UInt8) : Nat := ntohs (load packet 2 (ethHeaderSize + 6))
def arpSenderMac (packet : Nat → UInt8) : MacAddress := addressAt packet 6 (ethHeaderSize + 8)
def arpSenderIp (packet : Nat → UInt8) : IpAddress := addressAt packet 4 (ethHeaderSize + 14)
def arpTargetMac (packet : Nat → UInt8) : MacAddress := addressAt packet 6 (ethHeaderSize + 18)
def arpTargetIp (packet : Nat → UInt8) : IpAddress := addressAt packet 4 (ethHeaderSize + 24)

def ipProto (packet : Nat → UInt8) : UInt8 := packet (ethHeaderSize + 9)
def ipDest (packet : Nat → UInt8) : IpAddress := addressAt packet 4 (ethHeaderSize + 16)

/-- `payload_offset` of `handle_ipv4_packet`. -/
def payloadOffset (packet : Nat → UInt8) : Nat := ethHeaderSize + ipHeaderLen packet

/-- `icmp_len` of `handle_ipv4_packet`; the header length may exceed the total length. -/
def icmpLen (packet : Nat → UInt8) : Int := (ipLen packet : Int) - ipHeaderLen packet

def icmpType (packet : Nat → UInt8) (off : Nat) : UInt8 := packet off
def icmpChecksum (packet : Nat → UInt8) (off : Nat) : Nat := load packet 2 (off + 2)

def udpSrcPort (packet : Nat → UInt8) (off : Nat) : Nat := ntohs (load packet 2 off)
def udpDestPort (packet : Nat → UInt8) (off : Nat) : Nat := ntohs (load packet 2 (off + 2))
def udpLen (packet : Nat → UInt8) (off : Nat) : Nat := ntohs (load packet 2 (off + 4))

/-- `data_len` of `handle_udp_packet`. The unsigned difference wraps around and becomes
negative as an `int`. -/
def udpDataLen (packet : Nat → UInt8) (off : Nat) : Int := (udpLen packet off : Int) - udpHeaderSize

/-- `ip_checksum` where the length is an `int` that may be negative. Then no word is added,
and an odd length adds the byte in front of the last one. -/
def ipChecksumInt (data : Nat → UInt8) (off : Nat) (length : Int) : Nat :=
  let sum := sumWords data off (length / 2).toNat
  let sum := if length % 2 ≠ 0 then add32 sum (data (off + length - 1).toNat).toNat else sum
  0xFFFF - foldCarries 32 sum % 2 ^ 16

theorem ipChecksumInt_natCast (data : Nat → UInt8) (off length : Nat) :
    ipChecksumInt data off length = ipChecksum data off length := by
  have hhalf : ((length : Int) / 2).toNat = length / 2 := by omega
  have hodd : ((length : Int) % 2 ≠ 0) ↔ length &&& 1 ≠ 0 := by
    rw [Nat.and_one_is_mod]
    omega
  have hlast : ((off : Int) + length - 1).toNat = off + length - 1 := by omega
  simp only [ipChecksumInt, ipChecksum, hhalf, hodd, hlast]

/-! ## Sending -/

/-- The Ethernet and the IPv4 header that `udp_send`, `send_tcp_packet` and
`icmp_send_ping` write. -/
def ipv4Packet (srcMac destMac : MacAddress) (destIp : IpAddress) (ipLen id : Nat)
    (proto : UInt8) : Nat → UInt8 :=
  let packet := storeBytes (fun _ => 0) 6 srcMac.toList
  let packet := storeBytes packet 0 destMac.toList
  let packet := store packet 2 12 (ntohs 0x0800)
  let packet := storeBytes packet 14 [0x45, 0]
  let packet := store packet 2 16 (ntohs ipLen)
  let packet := store packet 2 18 (ntohs id)
  let packet := store packet 2 20 0
  let packet := storeBytes packet 22 [64, proto]
  let packet := store packet 2 24 0
  let packet := storeBytes packet 26 myIp.toList
  let packet := storeBytes packet 30 destIp.toList
  store packet 2 24 (ipChecksum packet 14 ipv4HeaderSize)

/-- An ARP packet, as `arp_send_request` and `handle_arp_packet` build it on zeroed bytes. -/
def arpPacket (srcMac destMac : MacAddress) (opcode : Nat) (targetMac : MacAddress)
    (targetIp : IpAddress) : Nat → UInt8 :=
  let packet := storeBytes (fun _ => 0) 0 destMac.toList
  let packet := storeBytes packet 6 srcMac.toList
  let packet := store packet 2 12 (ntohs 0x0806)
  let packet := store packet 2 14 (ntohs 1)
  let packet := store packet 2 16 (ntohs 0x0800)
  let packet := storeBytes packet 18 [6, 4]
  let packet := store packet 2 20 (ntohs opcode)
  let packet := storeBytes packet 22 srcMac.toList
  let packet := storeBytes packet 28 myIp.toList
  let packet := storeBytes packet 32 targetMac.toList
  storeBytes packet 38 targetIp.toList

/-- The 60 bytes of it that are sent. -/
def arpFrame (srcMac destMac : MacAddress) (opcode : Nat) (targetMac : MacAddress)
    (targetIp : IpAddress) : List UInt8 :=
  (List.range 60).map (arpPacket srcMac destMac opcode targetMac targetIp)

/-- The UDP header and the payload that `udp_send` writes. -/
def udpDatagram (packet : Nat → UInt8) (srcPort destPort : Nat) (payload : List UInt8) :
    Nat → UInt8 :=
  let packet := store packet 2 34 (ntohs srcPort)
  let packet := store packet 2 36 (ntohs destPort)
  let packet := store packet 2 38 (ntohs (udpHeaderSize + payload.length))
  let packet := store packet 2 40 0
  storeBytes packet 42 payload

/-- The payload of a ping. -/
def pingPayload : List UInt8 := (List.range 32).map fun i => 65 + UInt8.ofNat (i % 26)

/-- The ICMP message that `icmp_send_ping` writes, before its checksum. -/
def echoRequest (packet : Nat → UInt8) : Nat → UInt8 :=
  let packet := storeBytes packet 34 [8, 0]
  let packet := store packet 2 36 0
  let packet := store packet 2 38 (ntohs 1234)
  let packet := store packet 2 40 (ntohs 1)
  storeBytes packet 42 pingPayload

namespace Net

def printInt (s : Net) (num : Int) : Net := { s with console := s.console ++ [.int num] }

def printStringColor (s : Net) (text : String) (color : UInt8) : Net :=
  { s with console := s.console ++ [.literal text color] }

/-- The four calls of `print_int` with the dots between them. -/
def dottedAddress (ip : IpAddress) : List Print :=
  [.int ip[0].toNat, .char 46, .int ip[1].toNat, .char 46, .int ip[2].toNat, .char 46,
    .int ip[3].toNat]

def printIp (s : Net) (ip : IpAddress) : Net :=
  { s with console := s.console ++ dottedAddress ip }

/-- The request that `arp_send_request` builds. -/
def arpRequest (s : Net) (targetIp : IpAddress) : List UInt8 :=
  arpFrame s.myMac (Vector.replicate 6 0xFF) 1 (Vector.replicate 6 0) targetIp

/-- `arp_send_request`. -/
def arpSendRequest (s : Net) (targetIp : IpAddress) : Net :=
  s.rtl8139SendPacket (s.arpRequest targetIp)

/-- The frame that `udp_send` builds. All its bytes are written. -/
def udpFrame (s : Net) (destIp : IpAddress) (srcPort destPort : Nat) (payload : List UInt8) :
    List UInt8 :=
  let ipLen := ipv4HeaderSize + udpHeaderSize + payload.length
  let destMac := (s.arpResolve destIp).getD (Vector.replicate 6 0xFF)
  let packet := ipv4Packet s.myMac destMac destIp ipLen 1 17
  let packet := udpDatagram packet srcPort destPort payload
  (List.range (ethHeaderSize + ipLen)).map packet

/-- `udp_send`. A destination that is not in the ARP cache is asked for, and the packet is
sent to all in the meantime. -/
def udpSend (s : Net) (destIp : IpAddress) (srcPort destPort : Nat) (payload : List UInt8) :
    Net :=
  if ethHeaderSize + (ipv4HeaderSize + udpHeaderSize + payload.length) > 1500 then s
  else
    let frame := s.udpFrame destIp srcPort destPort payload
    if s.arpResolve destIp = none then (s.arpSendRequest destIp).rtl8139SendPacket frame
    else s.rtl8139SendPacket frame

/-- The frame that `icmp_send_ping` builds. All its 74 bytes are written. -/
def pingFrame (srcMac destMac : MacAddress) (destIp : IpAddress) : List UInt8 :=
  let ipLen := ipv4HeaderSize + icmpHeaderSize + 32
  let packet := ipv4Packet srcMac destMac destIp ipLen 2 1
  let packet := echoRequest packet
  let packet := store packet 2 36 (ipChecksum packet 34 (icmpHeaderSize + 32))
  (List.range (ethHeaderSize + ipLen)).map packet

/-- `icmp_send_ping` from the point where the destination is resolved. -/
def sendPing (s : Net) (destIp : IpAddress) (srcMac destMac : MacAddress) : Net :=
  let s := s.printString "Sending ICMP Echo Request to "
  let s := s.printIp destIp
  let s := s.printString "...\n"
  s.rtl8139SendPacket (pingFrame srcMac destMac destIp)

/-- `icmp_send_ping`, where `wait` is what the frames received during the delay loop do.
The source address is copied to the frame before that. -/
def icmpSendPing (s : Net) (destIp : IpAddress) (wait : Net → Net) : Net :=
  let srcMac := s.myMac
  match s.arpResolve destIp with
  | some destMac => s.sendPing destIp srcMac destMac
  | none =>
    let s := s.arpSendRequest destIp
    let s := s.printString "Resolving hardware address (ARP)...\n"
    let s := wait s
    match s.arpResolve destIp with
    | some destMac => s.sendPing destIp srcMac destMac
    | none =>
      s.printStringColor "Error: ARP resolution failed. Host unreachable.\n" colorLightRed

/-! ## Receiving -/

/-- `arp_cache_add`: the address of a known host is replaced, else the first free entry is
taken, and with no such entry nothing is added. -/
def arpCacheAdd (s : Net) (ip : IpAddress) (mac : MacAddress) : Net :=
  match (List.finRange 16).find? fun i =>
      (s.arpCache i).active && decide ((s.arpCache i).ip = ip) with
  | some i =>
    { s with arpCache := Function.update s.arpCache i { s.arpCache i with mac := mac } }
  | none =>
    match (List.finRange 16).find? fun i => !(s.arpCache i).active with
    | some i => { s with arpCache := Function.update s.arpCache i ⟨ip, mac, true⟩ }
    | none => s

/-- `handle_arp_packet`. -/
def handleArpPacket (s : Net) (packet : Nat → UInt8) (size : Int) : Net :=
  if size < ethHeaderSize + arpPacketSize then s
  else
    let s := s.arpCacheAdd (arpSenderIp packet) (arpSenderMac packet)
    if arpOpcode packet = 1 ∧ arpTargetIp packet = myIp then
      let senderMac := arpSenderMac packet
      s.rtl8139SendPacket (arpFrame s.myMac senderMac 2 senderMac (arpSenderIp packet))
    else s

/-- `handle_udp_packet`; it does not use `size` and `ip_header_len`. -/
def handleUdpPacket (s : Net) (packet : Nat → UInt8) (off : Nat) : Net :=
  let data := off + udpHeaderSize
  let s := s.printString "\n[UDP Packet] From "
  let s := s.printIp (ipSrc packet)
  let s := s.printString ":"
  let s := s.printInt (udpSrcPort packet off)
  let s := s.printString " -> "
  let s := (List.range (min (udpDataLen packet off).toNat 64)).foldl
    (fun s i => s.printChar (printable (packet (data + i)))) s
  s.printString "\n"

/-- The echo reply that `handle_ipv4_packet` builds in the array `reply`, which holds
`garbage` before the request is copied to it. -/
def echoReply (s : Net) (garbage packet : Nat → UInt8) : List UInt8 :=
  let off := payloadOffset packet
  let replySize := ethHeaderSize + ipLen packet
  let reply := fun i => if i < replySize then packet i else garbage i
  let reply := storeBytes reply 0 (addressAt reply 6 6).toList
  let reply := storeBytes reply 6 s.myMac.toList
  let reply := storeBytes reply 30 (addressAt reply 4 26).toList
  let reply := storeBytes reply 26 myIp.toList
  let reply := store reply 2 24 0
  let reply := store reply 2 24 (ipChecksum reply 14 (ipHeaderLen packet))
  let reply := storeBytes reply off [0]
  let reply := store reply 2 (off + 2) 0
  let reply := store reply 2 (off + 2) (ipChecksumInt reply off (icmpLen packet))
  (List.range replySize).map reply

end Net

/-- The variables of the network stack with the counter of echo replies. -/
structure Host extends Net where
  netPingReplies : Nat

namespace Host

/-- `calculated_checksum`: the field is cleared while the sum is computed. -/
def calculatedChecksum (packet : Nat → UInt8) (off : Nat) : Nat :=
  ipChecksumInt (store packet 2 (off + 2) 0) off (icmpLen packet)

/-- The branch of `handle_ipv4_packet` on ICMP. The size of the reply is the sum of the
lengths that it is checked against. -/
def handleIcmpPacket (s : Host) (garbage packet : Nat → UInt8) (size : Int) : Host :=
  let off := payloadOffset packet
  if size < off + icmpLen packet then s
  else if icmpType packet off = 8 then
    if ethHeaderSize + ipLen packet > 1024 then s
    else { s with toNet := s.rtl8139SendPacket (s.echoReply garbage packet) }
  else if icmpType packet off = 0 then
    if icmpChecksum packet off ≠ calculatedChecksum packet off then
      { s with toNet := s.printStringColor "Warning: ICMP Ping checksum invalid.\n" colorLightRed }
    else
      { s with
        toNet := ((s.printString "Reply from ").printIp (ipSrc packet)).printString "\n"
        netPingReplies := add32 s.netPingReplies 1 }
  else s

/-- `handle_ipv4_packet`. -/
def handleIpv4Packet (s : Host) (garbage packet : Nat → UInt8) (size : Int) : Host :=
  if size < ethHeaderSize + ipv4HeaderSize then s
  else if ipDest packet ≠ myIp ∧ ipDest packet ≠ #v[255, 255, 255, 255] then s
  else if ipProto packet = 1 then s.handleIcmpPacket garbage packet size
  else if ipProto packet = 17 then
    { s with toNet := s.handleUdpPacket packet (payloadOffset packet) }
  else if ipProto packet = 6 then
    { s with toNet := s.handleTcpPacket packet (payloadOffset packet) (ipHeaderLen packet) }
  else s

/-- `handle_ethernet_packet`. -/
def handleEthernetPacket (s : Host) (garbage packet : Nat → UInt8) (size : Int) : Host :=
  if size < ethHeaderSize then s
  else if ethType packet = 0x0806 then { s with toNet := s.handleArpPacket packet size }
  else if ethType packet = 0x0800 then s.handleIpv4Packet garbage packet size
  else s

end Host

/-! ## The choice of the handler -/

inductive Handler
  | arp
  | icmp
  | udp
  | tcp
deriving DecidableEq, Repr

/-- The handler of a frame, if any, in a host whose `my_ip` is `ip`. -/
def handlerOf (ip : IpAddress) (packet : Nat → UInt8) (size : Int) : Option Handler :=
  if size < ethHeaderSize then none
  else if ethType packet = 0x0806 then some .arp
  else if ethType packet = 0x0800 then
    if size < ethHeaderSize + ipv4HeaderSize then none
    else if ipDest packet ≠ ip ∧ ipDest packet ≠ #v[255, 255, 255, 255] then none
    else if ipProto packet = 1 then some .icmp
    else if ipProto packet = 17 then some .udp
    else if ipProto packet = 6 then some .tcp
    else none
  else none

namespace Host

/-- What a handler does. -/
def runHandler (s : Host) (garbage packet : Nat → UInt8) (size : Int) : Handler → Host
  | .arp => { s with toNet := s.handleArpPacket packet size }
  | .icmp => s.handleIcmpPacket garbage packet size
  | .udp => { s with toNet := s.handleUdpPacket packet (payloadOffset packet) }
  | .tcp =>
    { s with toNet := s.handleTcpPacket packet (payloadOffset packet) (ipHeaderLen packet) }

theorem handleEthernetPacket_eq (s : Host) (garbage packet : Nat → UInt8) (size : Int) :
    s.handleEthernetPacket garbage packet size =
      ((handlerOf myIp packet size).map (s.runHandler garbage packet size)).getD s := by
  unfold handleEthernetPacket handlerOf handleIpv4Packet
  repeat' split
  all_goals rfl

end Host

end Newrex
